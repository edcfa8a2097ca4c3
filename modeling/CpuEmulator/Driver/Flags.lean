import CpuEmulator.Driver.Messages
import CpuEmulator.Isa

set_option autoImplicit false

namespace CpuEmulator.Driver

open Library Isa

def FlagsKnown (fr : U16) : Prop := fr = 0 ∨ fr = flagZf ∨ fr = flagSf ||| flagCf

theorem compare_flags_known (difference : U64) : FlagsKnown (compareFlags difference) := by
  simp only [compareFlags]
  split
  · exact Or.inr (Or.inl rfl)
  · split
    · exact Or.inr (Or.inr rfl)
    · exact Or.inl rfl

theorem handle_compare_flags (cpu : MyCpu) (difference : U64) (known : FlagsKnown cpu.fr) :
    handleCompare cpu difference = { cpu with fr := compareFlags difference } := by
  simp only [handleCompare, compareFlags]
  by_cases zero : difference = 0
  · subst zero
    rcases known with known | known | known <;> rw [known] <;> rfl
  · by_cases negative : difference.toInt < 0
    · simp only [if_neg zero, if_pos negative]
      rcases known with known | known | known <;> rw [known] <;> rfl
    · simp only [if_neg zero, if_neg negative]
      rcases known with known | known | known <;> rw [known] <;> rfl

theorem execute_flags (input : Int) (cpu : MyCpu) (board : Board) (instr : Instruction) :
    (executeInstruction input cpu board instr).cpu.fr =
      (cmpOperands cpu instr).elim cpu.fr (fun operands => (handleCompare cpu (operands.1 - operands.2)).fr) := by
  cases execute_changes input cpu board instr with
  | failed _ uncompared same => rw [uncompared, same]; rfl
  | assigned _ _ _ _ uncompared _ _ _ changed => rw [uncompared, changed]; rfl
  | compared _ _ _ operands _ changed => rw [operands, changed]; rfl
  | moved _ uncompared changed => rw [uncompared, changed]; rfl
  | sampled _ _ _ _ _ uncompared _ _ _ changed => rw [uncompared, changed]; rfl
  | requested _ _ uncompared _ changed => rw [uncompared, changed]; rfl

def comparison (file : File) (call : Call) : Option (U64 × U64) := (executed file call).bind (cmpOperands file.ctx.cpu)

theorem call_flags (file next : File) (call : Call) (taken : callStep file call = some next) :
    next.ctx.cpu.fr = (comparison file call).elim file.ctx.cpu.fr
      (fun operands => (handleCompare file.ctx.cpu (operands.1 - operands.2)).fr) := by
  rw [comparison]
  cases call_effect file next call taken with
  | ignored _ _ idle same => rw [idle, same]; rfl
  | submitted _ _ _ idle stored => rw [idle, stored]; rfl
  | answered _ _ _ _ idle _ written => rw [idle, written]; rfl
  | executed env _ _ _ ran done => rw [ran, done, afterExecution, execute_flags, Option.bind_some]

section Branches

variable (cpu : MyCpu) (op : Opcode)

def Jumps : Prop :=
  ∀ input board instr, opcodeOf instr.opcode = some op → (executeInstruction input cpu board instr).cpu.pc = target instr

def FallsThrough : Prop :=
  ∀ input board instr, opcodeOf instr.opcode = some op → (executeInstruction input cpu board instr).cpu.pc = cpu.next

def TakenExactly (condition : Prop) : Prop := (condition → Jumps cpu op) ∧ (¬ condition → FallsThrough cpu op)

theorem branch_pc (input : Int) (board : Board) (instr : Instruction) (opcode : opcodeOf instr.opcode = some op)
    (branches : op.isBranch = true) :
    (executeInstruction input cpu board instr).cpu.pc = if branchTaken cpu.fr op then target instr else cpu.next := by
  have step (taken : Bool) : (branch taken cpu board instr).cpu.pc = if taken then target instr else cpu.next := by
    cases taken <;> rfl
  simp only [executeInstruction, opcode]
  cases op with
  | jmp | je | jg | jl => exact step _
  | add | sub | and | or | not | mov | cmp => cases branches

theorem branch_leads_away : ∃ instr, opcodeOf instr.opcode = some op ∧ target instr ≠ cpu.next := by
  by_cases zero : cpu.next = 0
  · refine ⟨⟨1, 0, op.code, 0⟩, opcode_of_code op, ?_⟩
    rw [zero]
    change (1 : U64) * BitVec.ofNat 64 instrSize ≠ 0
    decide
  · exact ⟨⟨0, 0, op.code, 0⟩, opcode_of_code op, fun same => zero same.symm⟩

theorem jumps_iff (branches : op.isBranch = true) : Jumps cpu op ↔ branchTaken cpu.fr op = true := by
  constructor
  · intro jumps
    obtain ⟨instr, opcode, away⟩ := branch_leads_away cpu op
    by_contra other
    have straight := branch_pc cpu op 0 loadedBoard instr opcode branches
    rw [if_neg other, jumps 0 loadedBoard instr opcode] at straight
    exact away straight
  · intro taken input board instr opcode
    rw [branch_pc cpu op input board instr opcode branches, if_pos taken]

theorem falls_through_iff (branches : op.isBranch = true) : FallsThrough cpu op ↔ ¬ branchTaken cpu.fr op = true := by
  constructor
  · intro falls taken
    obtain ⟨instr, opcode, away⟩ := branch_leads_away cpu op
    have jumped := branch_pc cpu op 0 loadedBoard instr opcode branches
    rw [if_pos taken, falls 0 loadedBoard instr opcode] at jumped
    exact away jumped.symm
  · intro straight input board instr opcode
    rw [branch_pc cpu op input board instr opcode branches, if_neg straight]

theorem taken_exactly_iff (branches : op.isBranch = true) (condition : Prop) :
    TakenExactly cpu op condition ↔ (branchTaken cpu.fr op = true ↔ condition) := by
  rw [TakenExactly, jumps_iff cpu op branches, falls_through_iff cpu op branches]
  constructor
  · rintro ⟨jumps, falls⟩
    exact ⟨fun taken => by_contra fun other => falls other taken, jumps⟩
  · intro same
    exact ⟨same.mpr, fun other taken => other (same.mp taken)⟩

end Branches

theorem greater_otherwise (fr : U16) : branchTaken fr .jg = (!branchTaken fr .jl && !branchTaken fr .je) := by
  simp only [branchTaken, bne, Bool.not_not]

section Comparison

variable (calls : List Call) (board : Board)

def comparisons (start : File) (calls : List Call) : List (U64 × U64) := Events.collect callStep comparison start calls

def encodedFlags (history : List (U64 × U64)) : U16 :=
  history.getLast?.elim 0 (fun operands => compareFlags (operands.1 - operands.2))

theorem encoded_flags_known (history : List (U64 × U64)) : FlagsKnown (encodedFlags history) := by
  rw [encodedFlags]
  cases history.getLast? with
  | none => exact Or.inl rfl
  | some operands => exact compare_flags_known _

theorem comparison_flags (file next : File) (call : Call) (known : FlagsKnown file.ctx.cpu.fr)
    (taken : callStep file call = some next) :
    next.ctx.cpu.fr = (comparison file call).elim file.ctx.cpu.fr
      (fun operands => compareFlags (operands.1 - operands.2)) := by
  rw [call_flags file next call taken]
  cases comparison file call with
  | none => rfl
  | some operands => exact congrArg MyCpu.fr (handle_compare_flags file.ctx.cpu _ known)

theorem run_flags (file : File) (ran : Events.run callStep ⟨board, freshContext⟩ calls = some file) :
    file.ctx.cpu.fr = encodedFlags (comparisons ⟨board, freshContext⟩ calls) := by
  apply Events.history_induction callStep (fun _ _ => True) ⟨board, freshContext⟩
    (fun soFar file => file.ctx.cpu.fr = encodedFlags (comparisons ⟨board, freshContext⟩ soFar))
  · rfl
  · intro soFar state call next before encoded _ taken
    have known : FlagsKnown state.ctx.cpu.fr := encoded ▸ encoded_flags_known _
    rw [comparison_flags state next call known taken, encoded, comparisons, comparisons,
      Events.collect_snoc callStep comparison _ state soFar call before, encodedFlags, encodedFlags, get_last_append_option]
    cases comparison state call <;> rfl
  · exact Events.along_trivial callStep _ calls
  · exact ran

def conditionals : List Opcode := [.je, .jg, .jl]

theorem conditional_branches (op : Opcode) (conditional : op ∈ conditionals) : op.isBranch = true := by
  revert op
  decide

theorem known_flags_select (cpu : MyCpu) (known : FlagsKnown cpu.fr) :
    ∃ op ∈ conditionals, Jumps cpu op ∧ ∀ other ∈ conditionals, other ≠ op → FallsThrough cpu other := by
  have select (op : Opcode) (conditional : op ∈ conditionals)
      (only : ∀ other ∈ conditionals, branchTaken cpu.fr other = true ↔ other = op) :
      ∃ op ∈ conditionals, Jumps cpu op ∧ ∀ other ∈ conditionals, other ≠ op → FallsThrough cpu other := by
    refine ⟨op, conditional, (jumps_iff cpu op (conditional_branches op conditional)).mpr ((only op conditional).mpr rfl), ?_⟩
    intro other member apart
    exact (falls_through_iff cpu other (conditional_branches other member)).mpr
      (fun taken => apart ((only other member).mp taken))
  rcases known with known | known | known
  · exact select .jg (by decide) (by rw [known]; decide)
  · exact select .je (by decide) (by rw [known]; decide)
  · exact select .jl (by decide) (by rw [known]; decide)

-- Over every run on a fresh file the flags are those of the last comparison, and
-- the branch they select is the one selected right after it.
theorem flags_encode_last_comparison (named : Events.Along callStep NamesRegisters ⟨board, freshContext⟩ calls) :
    ∃ file, Events.run callStep ⟨board, freshContext⟩ calls = some file ∧ FlagsKnown file.ctx.cpu.fr ∧
      file.ctx.cpu.fr = encodedFlags (comparisons ⟨board, freshContext⟩ calls) ∧
      (∀ call next, callStep file call = some next →
        next.ctx.cpu.fr = (comparison file call).elim file.ctx.cpu.fr
          (fun operands => compareFlags (operands.1 - operands.2))) ∧
      (∃ op ∈ conditionals, Jumps file.ctx.cpu op ∧
        ∀ other ∈ conditionals, other ≠ op → FallsThrough file.ctx.cpu other) ∧
      (∀ soFar earlier, soFar <+: calls → Events.run callStep ⟨board, freshContext⟩ soFar = some earlier →
        comparisons ⟨board, freshContext⟩ soFar = comparisons ⟨board, freshContext⟩ calls →
        ∀ op ∈ conditionals, Jumps earlier.ctx.cpu op ↔ Jumps file.ctx.cpu op) := by
  obtain ⟨file, ran, _⟩ := Events.run_total callStep NamesRegisters PendingNamed call_preserves _ calls
    (fresh_context_named board) named
  have encoded := run_flags calls board file ran
  have known : FlagsKnown file.ctx.cpu.fr := encoded ▸ encoded_flags_known _
  refine ⟨file, ran, known, encoded, ?_, known_flags_select file.ctx.cpu known, ?_⟩
  · intro call next taken
    exact comparison_flags file next call known taken
  · intro soFar earlier _ before quiet op conditional
    have branches := conditional_branches op conditional
    rw [jumps_iff _ op branches, jumps_iff _ op branches, encoded, run_flags soFar board earlier before, quiet]

end Comparison

section SignedOrder

theorem zero_flag (fr : U16) : branchTaken fr .je = fr.getLsbD 6 := by
  rw [branchTaken, show flagZf = BitVec.twoPow 16 6 from rfl, BitVec.and_twoPow]
  cases fr.getLsbD 6 <;> rfl

theorem sign_flag (fr : U16) : branchTaken fr .jl = fr.getLsbD 7 := by
  rw [branchTaken, show flagSf = BitVec.twoPow 16 7 from rfl, BitVec.and_twoPow]
  cases fr.getLsbD 7 <;> rfl

variable (cpu : MyCpu) (difference a b : U64)

theorem compare_zero_flag : branchTaken (handleCompare cpu difference).fr .je = decide (difference = 0) := by
  rw [zero_flag]
  simp only [handleCompare, flagZf, flagSf, flagCf]
  by_cases zero : difference = 0 <;> by_cases negative : difference.toInt < 0 <;>
    simp only [zero, negative, if_pos] <;> simp

theorem compare_sign_flag : branchTaken (handleCompare cpu difference).fr .jl = decide (difference.toInt < 0) := by
  rw [sign_flag]
  simp only [handleCompare, flagZf, flagSf, flagCf]
  by_cases zero : difference = 0 <;> by_cases negative : difference.toInt < 0 <;>
    simp only [zero, negative, if_pos] <;> simp

theorem difference_zero : a - b = 0 ↔ a = b := by
  rw [← BitVec.toNat_inj, ← BitVec.toNat_inj, BitVec.toNat_sub]
  have boundA := a.isLt
  have boundB := b.isLt
  change _ = 0 ↔ _
  omega

theorem difference_sign : ((a - b).toInt < 0 ↔ a.toInt < b.toInt) ↔ a.ssubOverflow b = false := by
  have lowA := a.le_toInt
  have highA := a.toInt_lt
  have lowB := b.le_toInt
  have highB := b.toInt_lt
  rw [BitVec.toInt_sub, BitVec.ssubOverflow, Bool.or_eq_false_iff, decide_eq_false_iff_not, decide_eq_false_iff_not,
    Int.bmod_def]
  split <;> omega

structure DecidesSignedOrder : Prop where
  equal : TakenExactly cpu .je (a = b)
  less : TakenExactly cpu .jl (a.toInt < b.toInt)
  greater : TakenExactly cpu .jg (b.toInt < a.toInt)

theorem decides_iff (equal : branchTaken cpu.fr .je = decide (a - b = 0))
    (less : branchTaken cpu.fr .jl = decide ((a - b).toInt < 0)) :
    DecidesSignedOrder cpu a b ↔ a.ssubOverflow b = false := by
  rw [← difference_sign]
  constructor
  · intro decides
    have order := (taken_exactly_iff cpu .jl rfl _).mp decides.less
    rw [less, decide_eq_true_iff] at order
    exact order
  · intro order
    refine ⟨(taken_exactly_iff cpu .je rfl _).mpr ?_, (taken_exactly_iff cpu .jl rfl _).mpr ?_,
      (taken_exactly_iff cpu .jg rfl _).mpr ?_⟩
    · rw [equal, decide_eq_true_iff]
      exact difference_zero a b
    · rw [less, decide_eq_true_iff]
      exact order
    · have apart : a.toInt = b.toInt ↔ a = b := BitVec.toInt_inj
      rw [greater_otherwise, less, equal, Bool.and_eq_true, Bool.not_eq_true', Bool.not_eq_true', decide_eq_false_iff_not,
        decide_eq_false_iff_not, order, difference_zero, ← apart]
      omega

-- The branches behind a CMP follow the signed order exactly when the difference
-- fits into 64 bits.
theorem branches_decide_signed_order_iff (start mid after : File) (compare : Call) (between : List Call)
    (compared : comparison start compare = some (a, b)) (first : callStep start compare = some mid)
    (quiet : Events.Along callStep (fun file call => comparison file call = none) mid between)
    (ran : Events.run callStep mid between = some after) :
    DecidesSignedOrder after.ctx.cpu a b ↔ a.ssubOverflow b = false := by
  have flags : mid.ctx.cpu.fr = (handleCompare start.ctx.cpu (a - b)).fr := by
    rw [call_flags start mid compare first, compared, Option.elim_some]
  have kept : after.ctx.cpu.fr = mid.ctx.cpu.fr := by
    apply Events.history_induction callStep (fun file call => comparison file call = none) mid
      (fun _ file => file.ctx.cpu.fr = mid.ctx.cpu.fr) rfl _ between quiet after ran
    intro soFar file call next _ same uncompared taken
    rw [call_flags file next call taken, uncompared]
    exact same
  apply decides_iff
  · rw [kept, flags, compare_zero_flag]
  · rw [kept, flags, compare_sign_flag]

end SignedOrder

def executeCalls (instr : Instruction) : List Call :=
  [.write sizeofWriteValue false ⟨instr, 0, 1⟩, .read sizeofReadValue ⟨0, 0, false⟩]

def compareR0 (value : U64) : Instruction := ⟨value, 0, Opcode.cmp.code, Mode.immediate.code⟩

theorem flags_encode_last_comparison_below :
    ∃ file, Events.run callStep ⟨loadedBoard, freshContext⟩ (executeCalls (compareR0 5)) = some file ∧
      file.ctx.cpu.fr = encodedFlags (comparisons ⟨loadedBoard, freshContext⟩ (executeCalls (compareR0 5))) := by
  have named : Events.Along callStep NamesRegisters ⟨loadedBoard, freshContext⟩ (executeCalls (compareR0 5)) := by
    refine ⟨fun _ handed => (by cases handed), fun next taken => ⟨?_, fun _ _ => trivial⟩⟩
    obtain rfl := Option.some.inj taken
    intro instr handed plain
    obtain rfl := Option.some.inj handed
    exact absurd plain (by decide)
  obtain ⟨file, ran, _, encoded, _⟩ := flags_encode_last_comparison (executeCalls (compareR0 5)) loadedBoard named
  exact ⟨file, ran, encoded⟩

-- CMP R0, 5 on zeroed registers, a MOV behind it.
theorem branches_decide_signed_order_iff_below :
    ∃ mid after, callStep ⟨loadedBoard, ⟨freshContext.cpu, compareR0 5⟩⟩ (.read sizeofReadValue ⟨0, 0, false⟩) = some mid ∧
      Events.run callStep mid (executeCalls ⟨9, 2, Opcode.mov.code, Mode.immediate.code⟩) = some after ∧
      (DecidesSignedOrder after.ctx.cpu 0 5 ↔ (0 : U64).ssubOverflow 5 = false) := by
  refine ⟨_, _, rfl, rfl, ?_⟩
  apply branches_decide_signed_order_iff 0 5 ⟨loadedBoard, ⟨freshContext.cpu, compareR0 5⟩⟩ _ _
    (.read sizeofReadValue ⟨0, 0, false⟩) (executeCalls ⟨9, 2, Opcode.mov.code, Mode.immediate.code⟩) rfl rfl
  · refine ⟨rfl, fun next taken => ?_⟩
    obtain rfl := Option.some.inj taken
    exact ⟨rfl, fun _ _ => trivial⟩
  · rfl

-- MOV R0, -2^63; CMP R0, 1; then a branch to instruction 5.
def overflowingCalls (branch : Opcode) : List Call :=
  executeCalls ⟨0x8000000000000000, 0, Opcode.mov.code, Mode.immediate.code⟩ ++ executeCalls (compareR0 1) ++
    executeCalls ⟨5, 0, branch.code, Mode.label.code⟩

theorem overflow_misleads_branches :
    (0x8000000000000000 : U64).toInt < (1 : U64).toInt ∧
      comparisons ⟨loadedBoard, freshContext⟩ (overflowingCalls .jl) = [(0x8000000000000000, 1)] ∧
      (Events.run callStep ⟨loadedBoard, freshContext⟩ (overflowingCalls .jl)).map (fun file => file.ctx.cpu.pc) = some 33 ∧
      (Events.run callStep ⟨loadedBoard, freshContext⟩ (overflowingCalls .jg)).map (fun file => file.ctx.cpu.pc) = some 55 :=
  ⟨by decide, rfl, rfl, rfl⟩

end CpuEmulator.Driver
