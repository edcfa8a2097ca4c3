import CpuEmulator.Driver.Device

set_option autoImplicit false

namespace CpuEmulator.Driver

def PlainDirect (instr : Instruction) : Prop :=
  opcodeOf instr.opcode = some .mov ∧
    (modeOf instr.mode = some .directLoad ∨ modeOf instr.mode = some .directStore) ∧
    isMmio instr.operand2 = false

instance (instr : Instruction) : Decidable (PlainDirect instr) :=
  inferInstanceAs (Decidable (_ ∧ _ ∧ _))

def request (cpu : MyCpu) (instr : Instruction) : MyCpu :=
  { cpu with
    pendingMemAddr := instr.operand2
    pendingRegIdx := instr.operand1
    pc := cpu.pc + BitVec.ofNat 64 instrSize }

-- Everything execute_instruction can do, one constructor for each way out.
inductive Effect (cpu : MyCpu) (board : Board) (instr : Instruction) : Executed → Prop where
  | rejected : Effect cpu board instr (leave cpu cpu board (-einval))
  | halted : Effect cpu board instr (leave cpu cpu board execHalt)
  | computed (regs : Fin 4 → U64) (fr : U16) (output : Bool) :
      Effect cpu board instr (finish cpu { cpu with regs := regs, fr := fr } { board with outputDev := output })
  | jumped : Effect cpu board instr
      (leave cpu { cpu with pc := instr.operand2 * BitVec.ofNat 64 instrSize } board execSuccess)
  | mmioRead (regs : Fin 4 → U64) (bits : U8) (lit : Board) : Effect cpu board instr
      ⟨{ cpu with regs := regs, pendingMmioRead := bits, pc := cpu.pc + BitVec.ofNat 64 instrSize }, lit,
        execPendingMmioRead⟩
  | load (plain : PlainDirect instr) (mode : modeOf instr.mode = some .directLoad) :
      Effect cpu board instr (leave cpu (request cpu instr) board execPendingMemRead)
  | store (plain : PlainDirect instr) (mode : modeOf instr.mode = some .directStore) :
      Effect cpu board instr (leave cpu (request cpu instr) board execPendingMemWrite)

variable (input : Int) (cpu : MyCpu) (board : Board) (instr : Instruction)

theorem two_operands_effect (immediate : Fin 4 → MyCpu) (register : Fin 4 → Fin 4 → MyCpu)
    (onImmediate : ∀ reg, ∃ regs fr, immediate reg = { cpu with regs := regs, fr := fr })
    (onRegister : ∀ reg1 reg2, ∃ regs fr, register reg1 reg2 = { cpu with regs := regs, fr := fr }) :
    Effect cpu board instr (twoOperands immediate register cpu board instr) := by
  simp only [twoOperands]
  split
  · split
    · exact .rejected
    · rename_i reg _
      obtain ⟨regs, fr, changed⟩ := onImmediate reg
      rw [changed]
      exact .computed regs fr board.outputDev
  · split
    · rename_i reg1 reg2 _ _
      obtain ⟨regs, fr, changed⟩ := onRegister reg1 reg2
      rw [changed]
      exact .computed regs fr board.outputDev
    · exact .rejected
  · exact .rejected

theorem assign_effect (op : U64 → U64 → U64) : Effect cpu board instr (assign op cpu board instr) :=
  two_operands_effect cpu board instr _ _ (fun _ => ⟨_, cpu.fr, rfl⟩) (fun _ _ => ⟨_, cpu.fr, rfl⟩)

theorem compare_effect : Effect cpu board instr (execCmp cpu board instr) :=
  two_operands_effect cpu board instr _ _ (fun _ => ⟨cpu.regs, _, rfl⟩) (fun _ _ => ⟨cpu.regs, _, rfl⟩)

theorem not_effect : Effect cpu board instr (execNot cpu board instr) := by
  simp only [execNot]
  split
  · exact .rejected
  · split
    · exact .rejected
    · exact .computed _ cpu.fr board.outputDev

theorem branch_effect (taken : Bool) : Effect cpu board instr (branch taken cpu board instr) := by
  cases taken with
  | true => exact .jumped
  | false => exact .computed cpu.regs cpu.fr board.outputDev

theorem direct_load_effect (op : opcodeOf instr.opcode = some .mov) (mode : modeOf instr.mode = some .directLoad) :
    Effect cpu board instr (directLoad input cpu board instr) := by
  unfold directLoad
  cases mmio : isMmio instr.operand2 with
  | false => exact .load ⟨op, Or.inl mode, mmio⟩ mode
  | true =>
      rw [if_pos rfl]
      split
      · split
        · exact .rejected
        · -- The sampled byte is unsigned, so the error exit is never taken.
          dsimp only
          rw [if_neg (by omega)]
          exact .mmioRead _ _ _
      · exact .rejected

theorem direct_store_effect (op : opcodeOf instr.opcode = some .mov) (mode : modeOf instr.mode = some .directStore) :
    Effect cpu board instr (directStore cpu board instr) := by
  simp only [directStore]
  cases mmio : isMmio instr.operand2 with
  | false => exact .store ⟨op, Or.inr mode, mmio⟩ mode
  | true =>
      rw [if_pos rfl]
      split
      · exact .halted
      · split
        · split
          · exact .rejected
          · split
            · exact .computed cpu.regs cpu.fr false
            · split
              · exact .computed cpu.regs cpu.fr true
              · exact .rejected
        · exact .rejected

theorem execute_effect : Effect cpu board instr (executeInstruction input cpu board instr) := by
  simp only [executeInstruction]
  cases op : opcodeOf instr.opcode with
  | none => exact .rejected
  | some opcode =>
      cases opcode with
      | add | sub | and | or => exact assign_effect cpu board instr _
      | not => exact not_effect cpu board instr
      | cmp => exact compare_effect cpu board instr
      | jmp | je | jg | jl => exact branch_effect cpu board instr _
      | mov =>
          change Effect cpu board instr (execMov input cpu board instr)
          simp only [execMov]
          split
          · rename_i mode
            exact direct_load_effect input cpu board instr op mode
          · rename_i mode
            exact direct_store_effect cpu board instr op mode
          · exact assign_effect cpu board instr _

-- No path of execute_instruction looks at operand1 of a plain direct move.
theorem plain_direct_executes (plain : PlainDirect instr) :
    ∃ ret, executeInstruction input cpu board instr = leave cpu (request cpu instr) board ret ∧
      (ret = execPendingMemRead ∨ ret = execPendingMemWrite) := by
  obtain ⟨op, mode, mmio⟩ := plain
  simp only [executeInstruction, execMov]
  rw [op]
  cases mode with
  | inl mode =>
      simp only [mode, directLoad, mmio, Bool.false_eq_true, if_false]
      exact ⟨_, rfl, Or.inl rfl⟩
  | inr mode =>
      simp only [mode, directStore, mmio, Bool.false_eq_true, if_false]
      exact ⟨_, rfl, Or.inr rfl⟩

end CpuEmulator.Driver
