import CpuEmulator.Driver.Effect

set_option autoImplicit false

namespace CpuEmulator.Driver

def writtenNumber (instr : Instruction) : Option U64 :=
  match opcodeOf instr.opcode with
  | some .add | some .sub | some .and | some .or => some (instr.operand1.setWidth 64)
  | some .not => some instr.operand2
  | some .mov =>
      match modeOf instr.mode with
      | some .immediate | some .register => some (instr.operand1.setWidth 64)
      | some .directLoad => if isMmioInput instr.operand2 then some (instr.operand1.setWidth 64) else none
      | _ => none
  | _ => none

def cmpOperands (cpu : MyCpu) (instr : Instruction) : Option (U64 × U64) :=
  if opcodeOf instr.opcode = some .cmp then
    match modeOf instr.mode with
    | some .immediate => (getRegister (instr.operand1.setWidth 64)).map fun reg => (cpu.regs reg, instr.operand2)
    | some .register =>
        match getRegister (instr.operand1.setWidth 64), getRegister instr.operand2 with
        | some reg1, some reg2 => some (cpu.regs reg1, cpu.regs reg2)
        | _, _ => none
    | _ => none
  else none

def branchTaken (fr : U16) : Opcode → Bool
  | .jmp => true
  | .je => fr &&& flagZf != 0
  | .jg => fr &&& flagSf == 0 && fr &&& flagZf == 0
  | .jl => fr &&& flagSf != 0
  | _ => false

def MyCpu.next (cpu : MyCpu) : U64 := cpu.pc + BitVec.ofNat 64 instrSize

def target (instr : Instruction) : U64 := instr.operand2 * BitVec.ofNat 64 instrSize

def takesBranch (cpu : MyCpu) (instr : Instruction) : Bool :=
  (opcodeOf instr.opcode).elim false (branchTaken cpu.fr)

-- What one execution does to the cpu, beside the part of the instruction that
-- asks for it. Each way out of the switch is one of these.
inductive Changes (cpu : MyCpu) (instr : Instruction) (done : Executed) : Prop where
  | failed (ret : done.ret = -einval ∨ done.ret = execHalt) (uncompared : cmpOperands cpu instr = none)
      (same : done.cpu = cpu)
  | assigned (reg : Fin 4) (number value : U64) (ret : done.ret = execSuccess) (uncompared : cmpOperands cpu instr = none)
      (straight : takesBranch cpu instr = false) (written : writtenNumber instr = some number)
      (named : getRegister number = some reg) (changed : done.cpu = { cpu.setReg reg value with pc := cpu.next })
  | compared (a b : U64) (ret : done.ret = execSuccess) (operands : cmpOperands cpu instr = some (a, b))
      (straight : takesBranch cpu instr = false) (changed : done.cpu = { handleCompare cpu (a - b) with pc := cpu.next })
  | moved (ret : done.ret = execSuccess) (uncompared : cmpOperands cpu instr = none)
      (changed : done.cpu = { cpu with pc := if takesBranch cpu instr then target instr else cpu.next })
  | sampled (reg : Fin 4) (number value : U64) (bits : U8) (ret : done.ret = execPendingMmioRead)
      (uncompared : cmpOperands cpu instr = none) (straight : takesBranch cpu instr = false)
      (written : writtenNumber instr = some number) (named : getRegister number = some reg)
      (changed : done.cpu = { cpu.setReg reg value with pendingMmioRead := bits, pc := cpu.next })
  | requested (plain : PlainDirect instr)
      (ret : done.ret = if modeOf instr.mode = some .directLoad then execPendingMemRead else execPendingMemWrite)
      (uncompared : cmpOperands cpu instr = none) (straight : takesBranch cpu instr = false)
      (changed : done.cpu = request cpu instr)

theorem uncompared_of_opcode (cpu : MyCpu) (instr : Instruction) (other : opcodeOf instr.opcode ≠ some .cmp) :
    cmpOperands cpu instr = none := if_neg other

theorem straight_of_opcode (cpu : MyCpu) (instr : Instruction) (op : Opcode) (opcode : opcodeOf instr.opcode = some op)
    (other : op.isBranch = false) : takesBranch cpu instr = false := by
  rw [takesBranch, opcode, Option.elim_some]
  cases op <;> first | rfl | cases other

variable (input : Int) (cpu : MyCpu) (board : Board) (instr : Instruction)

inductive TwoOperands (immediate : Fin 4 → MyCpu) (register : Fin 4 → Fin 4 → MyCpu) : Executed → Prop where
  | immediate (reg : Fin 4) (mode : modeOf instr.mode = some .immediate)
      (first : getRegister (instr.operand1.setWidth 64) = some reg) :
      TwoOperands immediate register (finish cpu (immediate reg) board)
  | register (reg1 reg2 : Fin 4) (mode : modeOf instr.mode = some .register)
      (first : getRegister (instr.operand1.setWidth 64) = some reg1) (second : getRegister instr.operand2 = some reg2) :
      TwoOperands immediate register (finish cpu (register reg1 reg2) board)
  | rejected (uncompared : cmpOperands cpu instr = none) : TwoOperands immediate register (leave cpu cpu board (-einval))

theorem two_operands_cases (immediate : Fin 4 → MyCpu) (register : Fin 4 → Fin 4 → MyCpu) :
    TwoOperands cpu board instr immediate register (twoOperands immediate register cpu board instr) := by
  simp only [twoOperands]
  split
  · rename_i mode
    cases first : getRegister (instr.operand1.setWidth 64) with
    | none => exact .rejected (by simp [cmpOperands, mode, first])
    | some reg => exact .immediate reg mode first
  · rename_i mode
    cases first : getRegister (instr.operand1.setWidth 64) with
    | none => exact .rejected (by simp [cmpOperands, mode, first])
    | some reg1 =>
        cases second : getRegister instr.operand2 with
        | none => exact .rejected (by simp [cmpOperands, mode, first, second])
        | some reg2 => exact .register reg1 reg2 mode first second
  · rename_i notImmediate notRegister
    exact .rejected (by simp only [cmpOperands, ite_self])

theorem assign_changes (op : U64 → U64 → U64) (straight : takesBranch cpu instr = false)
    (uncompared : cmpOperands cpu instr = none)
    (written : modeOf instr.mode = some .immediate ∨ modeOf instr.mode = some .register →
      writtenNumber instr = some (instr.operand1.setWidth 64)) :
    Changes cpu instr (assign op cpu board instr) := by
  have cases := two_operands_cases cpu board instr (fun reg => cpu.setReg reg (op (cpu.regs reg) instr.operand2))
    (fun reg1 reg2 => cpu.setReg reg1 (op (cpu.regs reg1) (cpu.regs reg2)))
  rw [assign]
  generalize twoOperands _ _ cpu board instr = done at cases ⊢
  cases cases with
  | immediate reg mode first =>
      exact .assigned reg _ _ rfl uncompared straight (written (Or.inl mode)) first rfl
  | register reg1 reg2 mode first second =>
      exact .assigned reg1 _ _ rfl uncompared straight (written (Or.inr mode)) first rfl
  | rejected _ => exact .failed (Or.inl rfl) uncompared rfl

theorem compare_changes (cmp : opcodeOf instr.opcode = some .cmp) : Changes cpu instr (execCmp cpu board instr) := by
  have straight := straight_of_opcode cpu instr .cmp cmp rfl
  have cases := two_operands_cases cpu board instr (fun reg => handleCompareImmediate cpu reg instr.operand2)
    (handleCompareRegister cpu)
  rw [execCmp]
  generalize twoOperands _ _ cpu board instr = done at cases ⊢
  cases cases with
  | immediate reg mode first =>
      exact .compared (cpu.regs reg) instr.operand2 rfl (by simp [cmpOperands, cmp, mode, first]) straight rfl
  | register reg1 reg2 mode first second =>
      exact .compared (cpu.regs reg1) (cpu.regs reg2) rfl (by simp [cmpOperands, cmp, mode, first, second]) straight rfl
  | rejected uncompared => exact .failed (Or.inl rfl) uncompared rfl

theorem not_changes (not : opcodeOf instr.opcode = some .not) : Changes cpu instr (execNot cpu board instr) := by
  have uncompared : cmpOperands cpu instr = none := if_neg (by rw [not]; decide)
  have straight := straight_of_opcode cpu instr .not not rfl
  simp only [execNot]
  split
  · exact .failed (Or.inl rfl) uncompared rfl
  · cases named : getRegister instr.operand2 with
    | none => exact .failed (Or.inl rfl) uncompared rfl
    | some reg => exact .assigned reg _ _ rfl uncompared straight (by rw [writtenNumber, not]) named rfl

theorem branch_changes (taken : Bool) (test : takesBranch cpu instr = taken) (uncompared : cmpOperands cpu instr = none) :
    Changes cpu instr (branch taken cpu board instr) := by
  cases taken with
  | true => exact .moved rfl uncompared (by rw [test]; rfl)
  | false => exact .moved rfl uncompared (by rw [test]; rfl)

theorem direct_load_changes (mov : opcodeOf instr.opcode = some .mov) (mode : modeOf instr.mode = some .directLoad) :
    Changes cpu instr (directLoad input cpu board instr) := by
  have uncompared : cmpOperands cpu instr = none := if_neg (by rw [mov]; decide)
  have straight := straight_of_opcode cpu instr .mov mov rfl
  simp only [directLoad]
  cases mmio : isMmio instr.operand2 with
  | false => exact .requested ⟨mov, Or.inl mode, mmio⟩ (by rw [if_pos mode]; rfl) uncompared straight rfl
  | true =>
      rw [if_pos rfl]
      cases device : isMmioInput instr.operand2 with
      | false => exact .failed (Or.inl rfl) uncompared rfl
      | true =>
          rw [if_pos rfl]
          cases named : getRegister (instr.operand1.setWidth 64) with
          | none => exact .failed (Or.inl rfl) uncompared rfl
          | some reg =>
              -- The sampled byte is unsigned, so the error exit is never taken.
              dsimp only
              rw [if_neg (by omega)]
              exact .sampled reg _ _ _ rfl uncompared straight (by simp only [writtenNumber, mov, mode, device, if_true])
                named rfl

theorem direct_store_changes (mov : opcodeOf instr.opcode = some .mov) (mode : modeOf instr.mode = some .directStore) :
    Changes cpu instr (directStore cpu board instr) := by
  have uncompared : cmpOperands cpu instr = none := if_neg (by rw [mov]; decide)
  have straight := straight_of_opcode cpu instr .mov mov rfl
  simp only [directStore]
  cases mmio : isMmio instr.operand2 with
  | false =>
      have stores : modeOf instr.mode ≠ some .directLoad := by rw [mode]; decide
      exact .requested ⟨mov, Or.inr mode, mmio⟩ (by rw [if_neg stores]; rfl) uncompared straight rfl
  | true =>
      have output (lit : Board) : Changes cpu instr (finish cpu cpu lit) :=
        .moved rfl uncompared (by rw [straight]; rfl)
      rw [if_pos rfl]
      split
      · exact .failed (Or.inr rfl) uncompared rfl
      · split
        · split
          · exact .failed (Or.inl rfl) uncompared rfl
          · split
            · exact output _
            · split
              · exact output _
              · exact .failed (Or.inl rfl) uncompared rfl
        · exact .failed (Or.inl rfl) uncompared rfl

theorem mov_changes (mov : opcodeOf instr.opcode = some .mov) : Changes cpu instr (execMov input cpu board instr) := by
  simp only [execMov]
  split
  · rename_i mode
    exact direct_load_changes input cpu board instr mov mode
  · rename_i mode
    exact direct_store_changes cpu board instr mov mode
  · apply assign_changes cpu board instr _ (straight_of_opcode cpu instr .mov mov rfl)
    · exact if_neg (by rw [mov]; decide)
    · rintro (mode | mode) <;> simp only [writtenNumber, mov, mode]

theorem execute_changes : Changes cpu instr (executeInstruction input cpu board instr) := by
  simp only [executeInstruction]
  cases opcode : opcodeOf instr.opcode with
  | none => exact .failed (Or.inl rfl) (if_neg (by rw [opcode]; decide)) rfl
  | some op =>
      cases op with
      | add | sub | and | or =>
          exact assign_changes cpu board instr _ (straight_of_opcode cpu instr _ opcode rfl)
            (if_neg (by rw [opcode]; decide)) (fun _ => by simp only [writtenNumber, opcode])
      | not => exact not_changes cpu board instr opcode
      | cmp => exact compare_changes cpu board instr opcode
      | mov => exact mov_changes input cpu board instr opcode
      | jmp | je | jg | jl =>
          exact branch_changes cpu board instr _ (by rw [takesBranch, opcode]; rfl) (if_neg (by rw [opcode]; decide))

theorem get_register_number (number : U64) (reg : Fin 4) (named : getRegister number = some reg) :
    number.toNat = reg.val := by
  simp only [getRegister] at named
  split at named
  · rename_i zero
    rw [zero, ← Option.some.inj named]
    rfl
  · rename_i one
    rw [one, ← Option.some.inj named]
    rfl
  · rename_i two
    rw [two, ← Option.some.inj named]
    rfl
  · rename_i three
    rw [three, ← Option.some.inj named]
    rfl
  · cases named

theorem set_reg_changed (reg other : Fin 4) (value : U64) (changed : (cpu.setReg reg value).regs other ≠ cpu.regs other) :
    other = reg := by
  by_contra apart
  apply changed
  simp only [MyCpu.setReg, Function.update_of_ne apart]

structure ChangesOnlyNamed (instr : Instruction) (after : MyCpu) : Prop where
  register : ∀ reg, after.regs reg ≠ cpu.regs reg → ∃ number, writtenNumber instr = some number ∧ number.toNat = reg.val
  flags : after.fr ≠ cpu.fr → opcodeOf instr.opcode = some .cmp
  pendingAddr : after.pendingMemAddr ≠ cpu.pendingMemAddr → PlainDirect instr
  pendingReg : after.pendingRegIdx ≠ cpu.pendingRegIdx → PlainDirect instr
  pc : after.pc = if takesBranch cpu instr then target instr else cpu.next

theorem compared_opcode (operands : U64 × U64) (compared : cmpOperands cpu instr = some operands) :
    opcodeOf instr.opcode = some .cmp := by
  by_contra other
  rw [uncompared_of_opcode cpu instr other] at compared
  cases compared

theorem only_named_of_register (after : MyCpu) (reg : Fin 4) (number value : U64) (written : writtenNumber instr = some number)
    (named : getRegister number = some reg) (straight : takesBranch cpu instr = false)
    (regs : after.regs = (cpu.setReg reg value).regs) (flags : after.fr = cpu.fr)
    (pendingAddr : after.pendingMemAddr = cpu.pendingMemAddr) (pendingReg : after.pendingRegIdx = cpu.pendingRegIdx)
    (pc : after.pc = cpu.next) : ChangesOnlyNamed cpu instr after where
  register := by
    intro other differs
    rw [regs] at differs
    rw [set_reg_changed cpu reg other value differs]
    exact ⟨number, written, get_register_number number reg named⟩
  flags := fun differs => absurd flags differs
  pendingAddr := fun differs => absurd pendingAddr differs
  pendingReg := fun differs => absurd pendingReg differs
  pc := by rw [pc, straight]; rfl

theorem changes_only_named (done : Executed) (changes : Changes cpu instr done) :
    (done.ret = -einval ∨ done.ret = execHalt → done.cpu = cpu) ∧
      (done.ret ≠ -einval → done.ret ≠ execHalt → ChangesOnlyNamed cpu instr done.cpu) := by
  have succeeded (code : Int) (ret : done.ret = code) (fine : code ≠ -einval ∧ code ≠ execHalt) :
      ¬ (done.ret = -einval ∨ done.ret = execHalt) := by
    rw [ret]
    exact not_or.mpr fine
  cases changes with
  | failed ret _ same =>
      refine ⟨fun _ => same, fun notInval notHalt => ?_⟩
      exact absurd ret (not_or.mpr ⟨notInval, notHalt⟩)
  | assigned reg number value ret _ straight written named changed =>
      refine ⟨fun failed => absurd failed (succeeded _ ret (by decide)), fun _ _ => ?_⟩
      rw [changed]
      exact only_named_of_register cpu instr _ reg number value written named straight rfl rfl rfl rfl rfl
  | compared a b ret operands straight changed =>
      refine ⟨fun failed => absurd failed (succeeded _ ret (by decide)), fun _ _ => ?_⟩
      rw [changed]
      exact ⟨fun _ same => absurd rfl same, fun _ => compared_opcode cpu instr (a, b) operands,
        fun same => absurd rfl same, fun same => absurd rfl same, by rw [straight]; rfl⟩
  | moved ret _ changed =>
      refine ⟨fun failed => absurd failed (succeeded _ ret (by decide)), fun _ _ => ?_⟩
      rw [changed]
      exact ⟨fun _ same => absurd rfl same, fun same => absurd rfl same, fun same => absurd rfl same,
        fun same => absurd rfl same, rfl⟩
  | sampled reg number value bits ret _ straight written named changed =>
      refine ⟨fun failed => absurd failed (succeeded _ ret (by decide)), fun _ _ => ?_⟩
      rw [changed]
      exact only_named_of_register cpu instr _ reg number value written named straight rfl rfl rfl rfl rfl
  | requested plain ret _ straight changed =>
      have code : done.ret ≠ -einval ∧ done.ret ≠ execHalt := by
        rw [ret]
        split <;> decide
      refine ⟨fun failed => absurd failed (not_or.mpr code), fun _ _ => ?_⟩
      rw [changed]
      exact ⟨fun _ same => absurd rfl same, fun same => absurd rfl same, fun _ => plain, fun _ => plain,
        by rw [straight]; rfl⟩

theorem execute_changes_only_named :
    ((executeInstruction input cpu board instr).ret = -einval ∨ (executeInstruction input cpu board instr).ret = execHalt →
        (executeInstruction input cpu board instr).cpu = cpu) ∧
      ((executeInstruction input cpu board instr).ret ≠ -einval → (executeInstruction input cpu board instr).ret ≠ execHalt →
        ChangesOnlyNamed cpu instr (executeInstruction input cpu board instr).cpu) :=
  changes_only_named cpu instr _ (execute_changes input cpu board instr)

end CpuEmulator.Driver
