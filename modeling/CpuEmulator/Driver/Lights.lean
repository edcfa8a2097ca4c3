import CpuEmulator.Driver.Effect

set_option autoImplicit false

namespace CpuEmulator.Driver

structure Lights where
  leds : Fin 4 → Bool
  output : Bool

def Board.lights (board : Board) : Lights := ⟨board.leds, board.outputDev⟩

def outputAfter (cpu : MyCpu) (instr : Instruction) (lit : Bool) : Bool :=
  if opcodeOf instr.opcode = some .mov ∧ modeOf instr.mode = some .directStore ∧ instr.operand2 = mmioOutput then
    match getRegister (instr.operand1.setWidth 64) with
    | none => lit
    | some reg => if cpu.regs reg = 0 then false else if cpu.regs reg = 1 then true else lit
  else lit

structure Shows (cpu : MyCpu) (output : Bool) (done : Executed) : Prop where
  leds : done.board.leds = fun i => done.cpu.regs i != cpu.regs i
  output : done.board.outputDev = output

section Execution

variable (input : Int) (cpu : MyCpu) (board : Board) (instr : Instruction)

theorem leave_shows (after : MyCpu) (ret : Int) : Shows cpu board.outputDev (leave cpu after board ret) := ⟨rfl, rfl⟩

theorem finish_shows (after : MyCpu) : Shows cpu board.outputDev (finish cpu after board) := ⟨rfl, rfl⟩

theorem two_operands_shows (immediate : Fin 4 → MyCpu) (register : Fin 4 → Fin 4 → MyCpu) :
    Shows cpu board.outputDev (twoOperands immediate register cpu board instr) := by
  simp only [twoOperands]
  split
  · split
    · exact leave_shows cpu board _ _
    · exact finish_shows cpu board _
  · split
    · exact finish_shows cpu board _
    · exact leave_shows cpu board _ _
  · exact leave_shows cpu board _ _

theorem not_shows : Shows cpu board.outputDev (execNot cpu board instr) := by
  simp only [execNot]
  split
  · exact leave_shows cpu board _ _
  · split
    · exact leave_shows cpu board _ _
    · exact finish_shows cpu board _

theorem branch_shows (taken : Bool) : Shows cpu board.outputDev (branch taken cpu board instr) := by
  cases taken with
  | true => exact leave_shows cpu board _ _
  | false => exact finish_shows cpu board _

theorem direct_load_shows : Shows cpu board.outputDev (directLoad input cpu board instr) := by
  simp only [directLoad]
  split
  · split
    · split
      · exact leave_shows cpu board _ _
      · split <;> exact ⟨rfl, rfl⟩
    · exact leave_shows cpu board _ _
  · exact leave_shows cpu board _ _

theorem direct_store_shows (mov : opcodeOf instr.opcode = some .mov) (mode : modeOf instr.mode = some .directStore) :
    Shows cpu (outputAfter cpu instr board.outputDev) (directStore cpu board instr) := by
  rw [outputAfter]
  by_cases device : instr.operand2 = mmioOutput
  · rw [if_pos ⟨mov, mode, device⟩]
    have mmio : isMmio mmioOutput = true := by decide
    have output : isMmioOutput mmioOutput = true := by decide
    have other : mmioOutput ≠ mmioHalt := by decide
    rw [directStore, device, mmio, if_pos rfl, if_neg other, output, if_pos rfl]
    cases getRegister (instr.operand1.setWidth 64) with
    | none => exact leave_shows cpu board _ _
    | some reg =>
        dsimp only
        split
        · exact finish_shows cpu { board with outputDev := false } _
        · split
          · exact finish_shows cpu { board with outputDev := true } _
          · exact leave_shows cpu board _ _
  · rw [if_neg fun all => device all.2.2, directStore]
    have output : isMmioOutput instr.operand2 = false := decide_eq_false device
    rw [output, if_neg Bool.false_ne_true]
    split
    · split <;> exact leave_shows cpu board _ _
    · exact leave_shows cpu board _ _

theorem execute_shows : Shows cpu (outputAfter cpu instr board.outputDev) (executeInstruction input cpu board instr) := by
  have kept (op : Opcode) (found : opcodeOf instr.opcode = some op) (other : op ≠ .mov) :
      outputAfter cpu instr board.outputDev = board.outputDev := by
    rw [outputAfter, if_neg]
    rintro ⟨mov, _⟩
    exact other (Option.some.inj (found.symm.trans mov))
  simp only [executeInstruction]
  cases op : opcodeOf instr.opcode with
  | none =>
      rw [outputAfter, if_neg fun all => by rw [op] at all; cases all.1]
      exact leave_shows cpu board _ _
  | some opcode =>
      cases opcode with
      | add | sub | and | or | cmp =>
          rw [kept _ op (by decide)]
          exact two_operands_shows cpu board instr _ _
      | not =>
          rw [kept _ op (by decide)]
          exact not_shows cpu board instr
      | jmp | je | jg | jl =>
          rw [kept _ op (by decide)]
          exact branch_shows cpu board instr _
      | mov =>
          simp only [execMov]
          cases mode : modeOf instr.mode with
          | none =>
              rw [outputAfter, if_neg fun all => by rw [mode] at all; cases all.2.1]
              exact two_operands_shows cpu board instr _ _
          | some known =>
              cases known with
              | directStore => exact direct_store_shows cpu board instr op mode
              | directLoad =>
                  rw [outputAfter, if_neg fun all => by rw [mode] at all; cases all.2.1]
                  exact direct_load_shows input cpu board instr
              | immediate | register | label =>
                  rw [outputAfter, if_neg fun all => by rw [mode] at all; cases all.2.1]
                  exact two_operands_shows cpu board instr _ _

end Execution

end CpuEmulator.Driver
