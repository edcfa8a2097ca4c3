import CpuEmulator.Driver.Messages
import CpuEmulator.Driver.Interrupts

set_option autoImplicit false

namespace CpuEmulator.Driver

open Library

def operandsNamed (instr : Instruction) : Bool :=
  match modeOf instr.mode with
  | some .immediate => (getRegister (instr.operand1.setWidth 64)).isSome
  | some .register => (getRegister (instr.operand1.setWidth 64)).isSome && (getRegister instr.operand2).isSome
  | _ => false

def loadAccepted (instr : Instruction) : Bool :=
  !isMmio instr.operand2 || isMmioInput instr.operand2 && (getRegister (instr.operand1.setWidth 64)).isSome

def storeAccepted (cpu : MyCpu) (instr : Instruction) : Bool :=
  !isMmio instr.operand2 || instr.operand2 != mmioHalt && isMmioOutput instr.operand2 &&
    (getRegister (instr.operand1.setWidth 64)).any fun reg => cpu.regs reg == 0 || cpu.regs reg == 1

def movAccepted (cpu : MyCpu) (instr : Instruction) : Bool :=
  match modeOf instr.mode with
  | some .directLoad => loadAccepted instr
  | some .directStore => storeAccepted cpu instr
  | _ => operandsNamed instr

-- The checks of execute_instruction, and HALT, which returns as they do.
def accepts (cpu : MyCpu) (instr : Instruction) : Bool :=
  match opcodeOf instr.opcode with
  | some .add | some .sub | some .and | some .or | some .cmp => operandsNamed instr
  | some .not => decide (modeOf instr.mode = some .register) && (getRegister instr.operand2).isSome
  | some .mov => movAccepted cpu instr
  | some .jmp | some .je | some .jg | some .jl => true
  | none => false

def keepsPlace (cpu : MyCpu) (instr : Instruction) : Bool :=
  !accepts cpu instr || takesBranch cpu instr && target instr == cpu.pc

def Halts (instr : Instruction) : Prop :=
  opcodeOf instr.opcode = some .mov ∧ modeOf instr.mode = some .directStore ∧ instr.operand2 = mmioHalt

def Stops (done : Executed) : Prop := done.ret = -einval ∨ done.ret = execHalt

theorem finish_goes_on (prev cpu : MyCpu) (board : Board) : ¬ Stops (finish prev cpu board) := by
  rintro (code | code) <;> cases code

theorem goes_on_of_code (done : Executed) (code : Int) (ret : done.ret = code) (fine : code ≠ -einval ∧ code ≠ execHalt) :
    ¬ Stops done := by
  rw [Stops, ret]
  exact not_or.mpr fine

theorem stops_here (prev cpu : MyCpu) (board : Board) (accepted : Bool) (no : accepted = false) :
    Stops (leave prev cpu board (-einval)) ↔ accepted = false := iff_of_true (Or.inl rfl) no

theorem goes_on_here (done : Executed) (accepted : Bool) (running : ¬ Stops done) (yes : accepted = true) :
    Stops done ↔ accepted = false := iff_of_false running (by rw [yes]; decide)

section Checks

variable (input : Int) (cpu : MyCpu) (board : Board) (instr : Instruction)

theorem two_operands_stops_iff (immediate : Fin 4 → MyCpu) (register : Fin 4 → Fin 4 → MyCpu) :
    Stops (twoOperands immediate register cpu board instr) ↔ operandsNamed instr = false := by
  simp only [twoOperands, operandsNamed]
  cases modeOf instr.mode with
  | none => exact stops_here _ _ _ _ rfl
  | some mode =>
      cases mode with
      | immediate =>
          cases getRegister (instr.operand1.setWidth 64) with
          | none => exact stops_here _ _ _ _ rfl
          | some reg => exact goes_on_here _ _ (finish_goes_on cpu _ board) rfl
      | register =>
          cases getRegister (instr.operand1.setWidth 64) with
          | none => exact stops_here _ _ _ _ rfl
          | some reg1 =>
              cases getRegister instr.operand2 with
              | none => exact stops_here _ _ _ _ rfl
              | some reg2 => exact goes_on_here _ _ (finish_goes_on cpu _ board) rfl
      | directLoad | directStore | label => exact stops_here _ _ _ _ rfl

theorem not_stops_iff : Stops (execNot cpu board instr) ↔
    (decide (modeOf instr.mode = some .register) && (getRegister instr.operand2).isSome) = false := by
  rw [execNot]
  by_cases register : modeOf instr.mode = some .register
  · rw [if_neg (not_not.mpr register), decide_eq_true register]
    cases getRegister instr.operand2 with
    | none => exact stops_here _ _ _ _ rfl
    | some reg => exact goes_on_here _ _ (finish_goes_on cpu _ board) rfl
  · rw [if_pos register, decide_eq_false register]
    exact stops_here _ _ _ _ rfl

theorem branch_goes_on (taken : Bool) : ¬ Stops (branch taken cpu board instr) := by
  cases taken with
  | true => exact goes_on_of_code _ execSuccess rfl (by decide)
  | false => exact finish_goes_on cpu cpu board

theorem direct_load_stops_iff : Stops (directLoad input cpu board instr) ↔ loadAccepted instr = false := by
  simp only [directLoad, loadAccepted]
  cases isMmio instr.operand2 with
  | false => exact goes_on_here _ _ (goes_on_of_code _ execPendingMemRead rfl (by decide)) rfl
  | true =>
      cases isMmioInput instr.operand2 with
      | false => exact stops_here _ _ _ _ rfl
      | true =>
          cases getRegister (instr.operand1.setWidth 64) with
          | none => exact stops_here _ _ _ _ rfl
          | some reg =>
              -- The sampled byte is unsigned, so the error exit is never taken.
              dsimp only
              rw [if_pos rfl, if_pos rfl, if_neg (by omega)]
              exact goes_on_here _ _ (goes_on_of_code _ execPendingMmioRead rfl (by decide)) rfl

theorem direct_store_stops_iff : Stops (directStore cpu board instr) ↔ storeAccepted cpu instr = false := by
  simp only [directStore, storeAccepted]
  cases isMmio instr.operand2 with
  | false => exact goes_on_here _ _ (goes_on_of_code _ execPendingMemWrite rfl (by decide)) rfl
  | true =>
      rw [if_pos rfl]
      by_cases halt : instr.operand2 = mmioHalt
      · rw [if_pos halt, halt]
        exact iff_of_true (Or.inr rfl) rfl
      · rw [if_neg halt, bne_iff_ne.mpr halt]
        cases isMmioOutput instr.operand2 with
        | false => exact stops_here _ _ _ _ rfl
        | true =>
            cases getRegister (instr.operand1.setWidth 64) with
            | none => exact stops_here _ _ _ _ rfl
            | some reg =>
                dsimp only [Option.any_some]
                rw [if_pos rfl]
                by_cases low : cpu.regs reg = 0
                · rw [if_pos low, low]
                  exact goes_on_here _ _ (finish_goes_on cpu cpu _) rfl
                · rw [if_neg low]
                  by_cases high : cpu.regs reg = 1
                  · rw [if_pos high, high]
                    exact goes_on_here _ _ (finish_goes_on cpu cpu _) rfl
                  · rw [if_neg high, beq_eq_false_iff_ne.mpr low, beq_eq_false_iff_ne.mpr high]
                    exact stops_here _ _ _ _ rfl

theorem mov_stops_iff : Stops (execMov input cpu board instr) ↔ movAccepted cpu instr = false := by
  simp only [execMov, movAccepted]
  cases modeOf instr.mode with
  | none => exact two_operands_stops_iff cpu board instr _ _
  | some mode =>
      cases mode with
      | directLoad => exact direct_load_stops_iff input cpu board instr
      | directStore => exact direct_store_stops_iff cpu board instr
      | immediate | register | label => exact two_operands_stops_iff cpu board instr _ _

theorem execute_stops_iff : Stops (executeInstruction input cpu board instr) ↔ accepts cpu instr = false := by
  simp only [executeInstruction, accepts]
  cases opcodeOf instr.opcode with
  | none => exact stops_here _ _ _ _ rfl
  | some op =>
      cases op with
      | add | sub | and | or | cmp => exact two_operands_stops_iff cpu board instr _ _
      | not => exact not_stops_iff cpu board instr
      | jmp | je | jg | jl => exact goes_on_here _ _ (branch_goes_on cpu board instr _) rfl
      | mov => exact mov_stops_iff input cpu board instr

theorem two_operands_code (immediate : Fin 4 → MyCpu) (register : Fin 4 → Fin 4 → MyCpu) :
    (twoOperands immediate register cpu board instr).ret ≠ execHalt := by
  simp only [twoOperands]
  split
  · split <;> exact fun code => by cases code
  · split <;> exact fun code => by cases code
  · exact fun code => by cases code

theorem not_code : (execNot cpu board instr).ret ≠ execHalt := by
  rw [execNot]
  split
  · exact fun code => by cases code
  · split <;> exact fun code => by cases code

theorem branch_code (taken : Bool) : (branch taken cpu board instr).ret ≠ execHalt := fun code =>
  branch_goes_on cpu board instr taken (Or.inr code)

theorem direct_load_code : (directLoad input cpu board instr).ret ≠ execHalt := by
  intro code
  simp only [directLoad] at code
  split at code
  · split at code
    · split at code
      · cases code
      · rw [if_neg (by omega)] at code
        cases code
    · cases code
  · cases code

theorem direct_store_halt_iff : (directStore cpu board instr).ret = execHalt ↔ instr.operand2 = mmioHalt := by
  constructor
  · intro code
    simp only [directStore] at code
    split at code
    · split at code
      · assumption
      · split at code
        · split at code
          · cases code
          · split at code
            · cases code
            · split at code <;> cases code
        · cases code
    · cases code
  · intro halt
    have mmio : isMmio instr.operand2 = true := by
      rw [halt]
      rfl
    rw [directStore, if_pos mmio, if_pos halt]
    rfl

theorem execute_halt_iff : (executeInstruction input cpu board instr).ret = execHalt ↔ Halts instr := by
  simp only [executeInstruction, Halts]
  cases opcodeOf instr.opcode with
  | none => exact iff_of_false (fun code => by cases code) (fun halts => by cases halts.1)
  | some op =>
      cases op with
      | add | sub | and | or | cmp =>
          exact iff_of_false (two_operands_code cpu board instr _ _) (fun halts => by cases halts.1)
      | not => exact iff_of_false (not_code cpu board instr) (fun halts => by cases halts.1)
      | jmp | je | jg | jl => exact iff_of_false (branch_code cpu board instr _) (fun halts => by cases halts.1)
      | mov =>
          simp only [execMov, true_and]
          cases modeOf instr.mode with
          | none => exact iff_of_false (two_operands_code cpu board instr _ _) (fun halts => by cases halts.1)
          | some mode =>
              cases mode with
              | directLoad => exact iff_of_false (direct_load_code input cpu board instr) (fun halts => by cases halts.1)
              | directStore => exact (direct_store_halt_iff cpu board instr).trans (and_iff_right rfl).symm
              | immediate | register | label =>
                  exact iff_of_false (two_operands_code cpu board instr _ _) (fun halts => by cases halts.1)

theorem rejected_iff : (executeInstruction input cpu board instr).ret = -einval ↔
    ¬ (accepts cpu instr = true ∨ Halts instr) := by
  have stops := execute_stops_iff input cpu board instr
  have halts := execute_halt_iff input cpu board instr
  rw [not_or, Bool.not_eq_true, ← stops, ← halts, Stops]
  constructor
  · intro code
    exact ⟨Or.inl code, fun halted => absurd (code.symm.trans halted) (by decide)⟩
  · rintro ⟨rejected | halted, running⟩
    · exact rejected
    · exact absurd halted running

theorem next_ne_pc : cpu.next ≠ cpu.pc := by
  intro same
  have zero : BitVec.ofNat 64 instrSize = 0 := BitVec.add_right_eq_self.mp same
  exact absurd zero (by decide)

theorem execute_keeps_iff :
    (executeInstruction input cpu board instr).cpu = cpu ↔ keepsPlace cpu instr = true := by
  have stops := execute_stops_iff input cpu board instr
  have changes := execute_changes input cpu board instr
  have named := changes_only_named cpu instr _ changes
  generalize executeInstruction input cpu board instr = done at stops changes named ⊢
  cases accepted : accepts cpu instr with
  | false =>
      have stopped : Stops done := stops.mpr accepted
      exact iff_of_true (named.1 stopped) (by rw [keepsPlace, accepted]; rfl)
  | true =>
      have running : ¬ Stops done := fun stopped => absurd (accepted.symm.trans (stops.mp stopped)) (by decide)
      have moved := (named.2 (fun code => running (Or.inl code)) (fun code => running (Or.inr code))).pc
      rw [keepsPlace, accepted, Bool.not_true, Bool.false_or]
      cases taken : takesBranch cpu instr with
      | false =>
          rw [taken] at moved
          refine iff_of_false (fun same => next_ne_pc cpu ?_) (by rw [Bool.false_and]; decide)
          rw [← moved.trans (if_neg (by decide)), same]
      | true =>
          rw [Bool.true_and, beq_iff_eq]
          cases changes with
          | failed ret _ _ => exact absurd ret running
          | assigned _ _ _ _ _ straight _ _ _ | compared _ _ _ _ straight _ | sampled _ _ _ _ _ _ straight _ _ _
          | requested _ _ _ straight _ =>
              rw [straight] at taken
              cases taken
          | moved _ _ changed =>
              rw [taken, if_pos rfl] at changed
              rw [changed]
              constructor
              · intro same
                exact congrArg MyCpu.pc same
              · intro same
                rw [same]

end Checks

section Failures

variable (env : ReadEnv) (board : Board) (ctx : CpuContext) (len : Nat) (reply : Reply)

theorem read_not_executed (ran : cpuRead env board ctx len = some reply) (idle : ¬ Executes len env) : reply.ctx = ctx := by
  simp only [cpuRead] at ran
  split at ran
  · rw [← Option.some.inj ran]
  · rename_i right
    split at ran
    · rw [← Option.some.inj ran]
    · rename_i woken
      exact absurd ⟨not_not.mp right, not_not.mp woken⟩ idle

def executedBy (env : ReadEnv) (board : Board) (ctx : CpuContext) : Executed :=
  executeInstruction env.input ctx.cpu (consumeStep board) ctx.pendingInstruction

theorem read_executed (ran : cpuRead env board ctx len = some reply) (executes : Executes len env) :
    reply.ctx = { ctx with cpu := (executedBy env board ctx).cpu } ∧
      (reply.ret < 0 ↔ (executedBy env board ctx).ret = -einval ∨ env.copyFault = true) := by
  obtain ⟨size, woken⟩ := executes
  simp only [cpuRead, size, woken, ne_eq, not_true, if_false] at ran
  rw [← executedBy] at ran
  generalize executedBy env board ctx = done at ran ⊢
  by_cases invalid : done.ret = -einval
  · rw [if_pos invalid] at ran
    rw [← Option.some.inj ran]
    exact ⟨rfl, iff_of_true (show -einval < 0 by decide) (Or.inl invalid)⟩
  · rw [if_neg invalid] at ran
    obtain ⟨buf, _, made⟩ := Option.map_eq_some_iff.mp ran
    cases fault : env.copyFault with
    | true =>
        rw [fault, if_pos rfl] at made
        rw [← made]
        exact ⟨rfl, iff_of_true (show -efault < 0 by decide) (Or.inr rfl)⟩
    | false =>
        rw [fault, if_neg (by decide)] at made
        rw [← made]
        exact ⟨rfl, iff_of_false (show ¬ (sizeofReadValue : Int) < 0 by decide) (not_or.mpr ⟨invalid, by decide⟩)⟩

theorem context_kept_iff : ({ ctx with cpu := (executedBy env board ctx).cpu } : CpuContext) = ctx ↔
    keepsPlace ctx.cpu ctx.pendingInstruction = true := by
  rw [← execute_keeps_iff env.input ctx.cpu (consumeStep board) ctx.pendingInstruction, ← executedBy]
  constructor
  · intro same
    exact congrArg CpuContext.cpu same
  · intro same
    rw [same]

-- The copy to the client comes last, when the instruction has been executed.
theorem failed_read_keeps_context_iff (ran : cpuRead env board ctx len = some reply) :
    (reply.ret < 0 → reply.ctx = ctx) ↔
      (Executes len env → env.copyFault = true → keepsPlace ctx.cpu ctx.pendingInstruction = true) := by
  by_cases executes : Executes len env
  · obtain ⟨after, failed⟩ := read_executed env board ctx len reply ran executes
    rw [after, failed, context_kept_iff]
    constructor
    · intro kept _ fault
      exact kept (Or.inr fault)
    · intro kept failure
      cases failure with
      | inl invalid =>
          have rejected := (execute_stops_iff env.input ctx.cpu (consumeStep board) ctx.pendingInstruction).mp (Or.inl invalid)
          rw [keepsPlace, rejected]
          rfl
      | inr fault => exact kept executes fault
  · exact iff_of_true (fun _ => read_not_executed env board ctx len reply ran executes) (fun here => absurd here executes)

end Failures

def spinning : CpuContext := { freshContext with pendingInstruction := ⟨0, 0, Opcode.jmp.code, Mode.label.code⟩ }

theorem failed_read_keeps_context_iff_spinning : ∃ reply,
    cpuRead ⟨0, 0, true⟩ loadedBoard spinning sizeofReadValue = some reply ∧ reply.ret = -efault ∧ reply.ctx = spinning :=
  ⟨_, rfl, rfl, (failed_read_keeps_context_iff ⟨0, 0, true⟩ loadedBoard spinning sizeofReadValue _ rfl).mpr
    (fun _ _ => rfl) (show -efault < 0 by decide)⟩

def faultedRead : Call := .read sizeofReadValue ⟨0, 0, true⟩

-- ADD R0, 1 is executed by the read that fails and once more by the retry.
theorem failed_read_executes :
    ¬ (∀ (env : ReadEnv) (board : Board) (ctx : CpuContext) (len : Nat) (reply : Reply),
        cpuRead env board ctx len = some reply → reply.ret < 0 → reply.ctx = ctx) ∧
      (Events.run callStep ⟨loadedBoard, freshContext⟩
        [.write sizeofWriteValue false ⟨addOne, 0, 1⟩, faultedRead, .read sizeofReadValue ⟨0, 0, false⟩]).map
          (fun file => (file.ctx.cpu.regs 0, file.ctx.cpu.pc)) = some (2, 22) := by
  refine ⟨fun kept => ?_, rfl⟩
  have same := kept ⟨0, 0, true⟩ loadedBoard { freshContext with pendingInstruction := addOne } sizeofReadValue _ rfl
    (show -efault < 0 by decide)
  exact absurd (congrArg (fun ctx => ctx.cpu.pc) same) (by decide)

end CpuEmulator.Driver
