import CpuEmulator.Userspace.Run
import CpuEmulator.Driver.Flags
import Mathlib.Tactic.IntervalCases

set_option autoImplicit false

namespace CpuEmulator.Userspace

open Library Driver Isa

theorem get_register_decoded (reg : U64) : getRegister reg = register reg.toNat := by
  simp only [getRegister, register]
  by_cases small : reg.toNat < 4
  · rw [dif_pos small]
    generalize reg.toNat = n at small ⊢
    interval_cases n <;> rfl
  · rw [dif_neg small]
    split <;> first | omega | rfl

theorem get_register_operand (operand : U8) : getRegister (operand.setWidth 64) = register operand.toNat := by
  have same : (operand.setWidth 64).toNat = operand.toNat := by
    rw [BitVec.toNat_setWidth, Nat.mod_eq_of_lt (by omega)]
  rw [get_register_decoded, same]

def view (cpu : MyCpu) (memory : Memory) : Machine := ⟨cpu.regs, cpu.pc, cpu.fr, memory⟩

-- The outcome of one instruction once the client has answered the request that
-- execute_instruction may have left pending.
inductive Settles (memory : Memory) (done : Executed) : Outcome → Prop where
  | rejected (code : done.ret = -einval) : Settles memory done (.stopped (.rejected (view done.cpu memory)))
  | success (code : done.ret = execSuccess) : Settles memory done (.running (view done.cpu memory))
  | halted (code : done.ret = execHalt) : Settles memory done (.stopped (.halted (view done.cpu memory)))
  | mmioRead (code : done.ret = execPendingMmioRead) : Settles memory done (.running (view done.cpu memory))
  | memRead (reg : Fin 4) (code : done.ret = execPendingMemRead)
      (named : getRegister (done.cpu.pendingRegIdx.setWidth 64) = some reg)
      (plain : done.cpu.pendingMemAddr < dataLimit) :
      Settles memory done (.running ((view done.cpu memory).set reg
        (leWord 64 (fun i => memory (done.cpu.pendingMemAddr.toNat + i)) 8)))
  | memWrite (reg : Fin 4) (code : done.ret = execPendingMemWrite)
      (named : getRegister (done.cpu.pendingRegIdx.setWidth 64) = some reg)
      (plain : done.cpu.pendingMemAddr < dataLimit) :
      Settles memory done (.running { view done.cpu memory with
        memory := writeCells memory done.cpu.pendingMemAddr.toNat (leByte (done.cpu.regs reg)) 8 })

theorem two_operands_settles (immediate : Fin 4 → MyCpu) (register : Fin 4 → Fin 4 → MyCpu)
    (make : Fin 4 → Source → Instr) (input : U64) (cpu : MyCpu) (board : Board) (raw : Instruction)
    (memory : Memory)
    (onImmediate : ∀ dst, execute input (view cpu memory) (make dst (.imm raw.operand2)) =
      .running (view (immediate dst) memory).advance)
    (onRegister : ∀ dst src, execute input (view cpu memory) (make dst (.reg src)) =
      .running (view (register dst src) memory).advance) :
    Settles memory (twoOperands immediate register cpu board raw)
      (perform input (view cpu memory) (binary make raw)) := by
  simp only [twoOperands, binary, source]
  rw [get_register_operand, get_register_decoded]
  cases modeOf raw.mode with
  | none => cases Isa.register raw.operand1.toNat <;> exact .rejected rfl
  | some mode =>
      cases mode with
      | immediate =>
          cases Isa.register raw.operand1.toNat with
          | none => exact .rejected rfl
          | some dst =>
              simp only [perform, onImmediate]
              exact .success rfl
      | register =>
          cases Isa.register raw.operand1.toNat with
          | none => exact .rejected rfl
          | some dst =>
              cases Isa.register raw.operand2.toNat with
              | none => exact .rejected rfl
              | some src =>
                  simp only [Option.map_some, perform, onRegister]
                  exact .success rfl
      | directLoad | directStore | label =>
          cases Isa.register raw.operand1.toNat <;> exact .rejected rfl

theorem assign_settles (op : U64 → U64 → U64) (input : U64) (cpu : MyCpu) (board : Board)
    (raw : Instruction) (memory : Memory) :
    Settles memory (assign op cpu board raw) (perform input (view cpu memory) (binary (.assign op) raw)) :=
  two_operands_settles _ _ _ input cpu board raw memory (fun _ => rfl) (fun _ _ => rfl)

theorem not_settles (input : U64) (cpu : MyCpu) (board : Board) (raw : Instruction) (memory : Memory) :
    Settles memory (execNot cpu board raw) (perform input (view cpu memory)
      (if modeOf raw.mode = some .register then (register raw.operand2.toNat).map .not else none)) := by
  simp only [execNot]
  rw [get_register_decoded]
  by_cases mode : modeOf raw.mode = some .register
  · rw [if_neg (not_not_intro mode), if_pos mode]
    cases register raw.operand2.toNat with
    | none => exact .rejected rfl
    | some dst => exact .success rfl
  · rw [if_pos mode, if_neg mode]
    exact .rejected rfl

theorem cmp_settles (input : U64) (cpu : MyCpu) (board : Board) (raw : Instruction) (memory : Memory)
    (known : FlagsKnown cpu.fr) :
    Settles memory (execCmp cpu board raw) (perform input (view cpu memory) (binary .compare raw)) := by
  apply two_operands_settles
  · intro lhs
    rw [handleCompareImmediate, handle_compare_flags cpu _ known]
    rfl
  · intro lhs rhs
    rw [handleCompareRegister, handle_compare_flags cpu _ known]
    rfl

theorem branch_settles (cond : Condition) (input : U64) (cpu : MyCpu) (board : Board) (raw : Instruction)
    (memory : Memory) :
    Settles memory (branch (cond.holds cpu.fr) cpu board raw)
      (perform input (view cpu memory) (some (.jump cond raw.operand2))) := by
  simp only [branch, perform, execute]
  cases taken : cond.holds cpu.fr with
  | false =>
      simp only [view, taken]
      exact .success rfl
  | true =>
      simp only [view, taken]
      exact .success rfl

theorem is_mmio_plain (addr : U64) : isMmio addr = !decide (addr < dataLimit) := by
  have opposite : mmioStart ≤ addr ↔ ¬ addr < dataLimit := BitVec.not_lt.symm
  rw [isMmio, decide_eq_decide.mpr opposite, decide_not]

def InputBit (input : Int) : Prop := input = 0 ∨ input = 1

theorem input_bit_kept (input : Int) (bit : InputBit input) :
    (BitVec.ofInt 8 input).setWidth 64 = BitVec.ofInt 64 input := by
  rcases bit with rfl | rfl <;> rfl

theorem load_settles (input : Int) (cpu : MyCpu) (board : Board) (raw : Instruction) (memory : Memory)
    (bit : InputBit input) (named : raw.operand1.toNat < 4) :
    Settles memory (directLoad input cpu board raw)
      (perform (BitVec.ofInt 64 input) (view cpu memory) (decodeLoad raw)) := by
  have dst : register raw.operand1.toNat = some ⟨raw.operand1.toNat, named⟩ := dif_pos named
  simp only [directLoad, decodeLoad]
  rw [get_register_operand, dst, is_mmio_plain]
  by_cases plain : raw.operand2 < dataLimit
  · simp only [plain, decide_true, Bool.not_true, Bool.false_eq_true, if_false, if_true]
    exact .memRead _ rfl (by rw [← dst, ← get_register_operand]; rfl) plain
  · by_cases device : raw.operand2 = inputAddr
    · have selected : isMmioInput raw.operand2 = true := by rw [device]; rfl
      simp only [plain, decide_false, Bool.not_false, selected, if_true, if_false, if_pos device]
      rw [if_neg (Int.not_lt.mpr (Int.natCast_nonneg _)), perform, execute, ← input_bit_kept input bit]
      exact .mmioRead rfl
    · have other : isMmioInput raw.operand2 = false := decide_eq_false device
      simp only [plain, decide_false, Bool.not_false, other, if_true, if_false, if_neg device,
        Bool.false_eq_true]
      exact .rejected rfl

theorem store_settles (input : U64) (cpu : MyCpu) (board : Board) (raw : Instruction) (memory : Memory)
    (named : raw.operand1.toNat < 4) :
    Settles memory (directStore cpu board raw) (perform input (view cpu memory) (decodeStore raw)) := by
  have src : register raw.operand1.toNat = some ⟨raw.operand1.toNat, named⟩ := dif_pos named
  simp only [directStore, decodeStore]
  rw [get_register_operand, src, is_mmio_plain]
  by_cases plain : raw.operand2 < dataLimit
  · have notHalt : raw.operand2 ≠ haltAddr := by
      intro same
      rw [same] at plain
      exact absurd plain (by decide)
    simp only [plain, decide_true, Bool.not_true, Bool.false_eq_true, if_false, if_true, if_neg notHalt]
    exact .memWrite _ rfl (by rw [← src, ← get_register_operand]; rfl) plain
  · by_cases halt : raw.operand2 = haltAddr
    · simp only [plain, decide_false, Bool.not_false, if_true, if_pos halt, if_pos (show raw.operand2 = mmioHalt from halt)]
      exact .halted rfl
    · have notHalt : ¬ raw.operand2 = mmioHalt := halt
      by_cases device : raw.operand2 = outputAddr
      · have selected : isMmioOutput raw.operand2 = true := by rw [device]; rfl
        simp only [plain, decide_false, Bool.not_false, selected, if_true, if_false, if_neg halt,
          if_neg notHalt, if_pos device, perform]
        by_cases zero : cpu.regs ⟨raw.operand1.toNat, named⟩ = 0
        · rw [if_pos zero, execute_output_bit _ _ _ (Or.inl zero)]
          exact .success rfl
        · by_cases one : cpu.regs ⟨raw.operand1.toNat, named⟩ = 1
          · rw [if_neg zero, if_pos one, execute_output_bit _ _ _ (Or.inr one)]
            exact .success rfl
          · rw [if_neg zero, if_neg one, execute_output_other _ _ _ (not_or.mpr ⟨zero, one⟩)]
            exact .rejected rfl
      · have other : isMmioOutput raw.operand2 = false := decide_eq_false device
        simp only [plain, decide_false, Bool.not_false, other, if_true, if_false, if_neg halt, if_neg notHalt,
          if_neg device, Bool.false_eq_true]
        exact .rejected rfl

-- What the program must promise about an instruction for the driver not to
-- dereference a register that does not exist.
def NamesRegister (raw : Instruction) : Prop :=
  modeOf raw.mode = some .directLoad ∨ modeOf raw.mode = some .directStore → raw.operand1.toNat < 4

theorem mov_settles (input : Int) (cpu : MyCpu) (board : Board) (raw : Instruction) (memory : Memory)
    (bit : InputBit input) (named : NamesRegister raw) (opcode : opcodeOf raw.opcode = some .mov) :
    Settles memory (execMov input cpu board raw)
      (perform (BitVec.ofInt 64 input) (view cpu memory) (decode raw)) := by
  simp only [execMov, decode]
  rw [opcode]
  cases mode : modeOf raw.mode with
  | none => exact assign_settles _ _ cpu board raw memory
  | some kind =>
      cases kind with
      | directLoad => exact load_settles input cpu board raw memory bit (named (Or.inl mode))
      | directStore => exact store_settles _ cpu board raw memory (named (Or.inr mode))
      | immediate | register | label => exact assign_settles _ _ cpu board raw memory

theorem execute_settles (input : Int) (cpu : MyCpu) (board : Board) (raw : Instruction) (memory : Memory)
    (bit : InputBit input) (named : NamesRegister raw) (known : FlagsKnown cpu.fr) :
    Settles memory (executeInstruction input cpu board raw)
      (perform (BitVec.ofInt 64 input) (view cpu memory) (decode raw)) := by
  simp only [executeInstruction]
  cases opcode : opcodeOf raw.opcode with
  | none =>
      simp only [decode, opcode, perform]
      exact .rejected rfl
  | some op =>
      cases op with
      | mov => exact mov_settles input cpu board raw memory bit named opcode
      | add | sub | and | or =>
          simp only [decode, opcode]
          exact assign_settles _ _ cpu board raw memory
      | not =>
          simp only [decode, opcode]
          exact not_settles _ cpu board raw memory
      | cmp =>
          simp only [decode, opcode]
          exact cmp_settles _ cpu board raw memory known
      | jmp =>
          simp only [decode, opcode]
          exact branch_settles .always _ cpu board raw memory
      | je =>
          simp only [decode, opcode]
          exact branch_settles .equal _ cpu board raw memory
      | jg =>
          simp only [decode, opcode]
          exact branch_settles .greater _ cpu board raw memory
      | jl =>
          simp only [decode, opcode]
          exact branch_settles .less _ cpu board raw memory

end CpuEmulator.Userspace
