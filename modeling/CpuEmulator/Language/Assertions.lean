import CpuEmulator.Language.Sequencing

set_option autoImplicit false

namespace CpuEmulator.Language

open Library Assembler Driver Userspace

abbrev Assertion := (Fin 4 → U64) → Ordering → (Nat → U8) → Prop

def SourceState.meets (st : SourceState) (assertion : Assertion) : Prop := assertion st.regs st.compared st.memory

-- The author of a source says what holds where it finishes, where an access of
-- it is rejected and at each of its labels.
structure Contract where
  finish : Assertion
  reject : Assertion
  label : Text → Assertion

def Contract.precondition (contract : Contract) (behind : Assertion) (st : SourceState) : Statement → Prop
  | .registers op first second => (st.operate op.val first (st.regs second)).meets behind
  | .literal op first value => (st.operate op.val first value.value).meets behind
  | .load target address =>
      if address.value < Isa.dataLimit then
        (st.set target (leWord 64 (fun i => st.memory (address.value.toNat + i)) 8)).meets behind
      else if address.value = Isa.inputAddr then (st.set target 0).meets behind ∧ (st.set target 1).meets behind
      else st.meets contract.reject
  | .store address source =>
      if address.value = Isa.haltAddr then st.meets contract.finish
      else if address.value < Isa.dataLimit then
        { st with memory := writeCells st.memory address.value.toNat (leByte (st.regs source)) 8 }.meets behind
      else if address.value = Isa.outputAddr ∧ (st.regs source = 0 ∨ st.regs source = 1) then st.meets behind
      else st.meets contract.reject
  | .negate register => (st.set register (~~~st.regs register)).meets behind
  | .branch op label => if branches op.val st.compared then st.meets (contract.label label.name) else st.meets behind

def Contract.before (contract : Contract) : List Item → Assertion
  | [] => contract.finish
  | .label name :: _ => contract.label name
  | .statement statement _ :: rest =>
      fun regs compared memory => contract.precondition (contract.before rest) ⟨regs, compared, memory, rest⟩ statement

def Contract.Obligations (contract : Contract) : List Item → Prop
  | [] => True
  | .label name :: rest =>
      (∀ st : SourceState, st.meets (contract.label name) → st.meets (contract.before rest)) ∧ contract.Obligations rest
  | .statement _ _ :: rest => contract.Obligations rest

structure Contract.Verified (contract : Contract) (items : List Item) (memory : Nat → U8) : Prop where
  start : (sourceStart memory items).meets (contract.before items)
  obligations : contract.Obligations items

def Contract.Ends (contract : Contract) : SourceStop → Prop
  | .finished st => st.meets contract.finish
  | .rejected st => st.meets contract.reject
  | .unlabelled _ => False

section Soundness

variable (contract : Contract) (items : List Item)

theorem obligations_suffix (front rest : List Item) (obligations : contract.Obligations (front ++ rest)) :
    contract.Obligations rest := by
  induction front with
  | nil => exact obligations
  | cons item front ih =>
      cases item with
      | label name => exact ih obligations.2
      | statement statement text => exact ih obligations

theorem before_finished (rest : List Item) (st : SourceState) (obligations : contract.Obligations rest)
    (meets : st.meets (contract.before rest)) (ended : nextStatement rest = none) : st.meets contract.finish := by
  induction rest with
  | nil => exact meets
  | cons item rest ih =>
      cases item with
      | label name => exact ih obligations.2 (obligations.1 st meets) ended
      | statement statement text => cases ended

theorem before_statement (rest behind : List Item) (st : SourceState) (statement : Statement) (text : Text)
    (obligations : contract.Obligations rest) (meets : st.meets (contract.before rest))
    (next : nextStatement rest = some (statement, text, behind)) :
    contract.precondition (contract.before behind) { st with rest := behind } statement := by
  induction rest with
  | nil => cases next
  | cons item rest ih =>
      cases item with
      | label name => exact ih obligations.2 (obligations.1 st meets) next
      | statement other line =>
          cases next
          exact meets

def Contract.Holds : SourceProgress → Prop :=
  Progress.Meets (fun st => st.meets (contract.before st.rest)) contract.Ends

theorem either_bit (holds : Prop) : holds ↔ ∀ bit : U64, bit = 0 ∨ bit = 1 → holds :=
  ⟨fun always _ _ => always, fun always => always 0 (Or.inl rfl)⟩

theorem precondition_iff (behind : Assertion) (st : SourceState) (statement : Statement)
    (straight : ∀ op label, statement ≠ .branch op label) : contract.precondition behind st statement ↔
      ∀ bit : U64, bit = 0 ∨ bit = 1 →
        Progress.Meets (fun next => next.meets behind) contract.Ends (perform items bit st statement) := by
  cases statement with
  | registers op first second | literal op first value | negate register => exact either_bit _
  | load target address =>
      simp only [Contract.precondition, perform]
      by_cases data : address.value < Isa.dataLimit
      · simp only [if_pos data]
        exact either_bit _
      · simp only [if_neg data]
        by_cases line : address.value = Isa.inputAddr
        · simp only [if_pos line]
          refine ⟨fun holds bit valid => ?_, fun meets => ⟨meets 0 (Or.inl rfl), meets 1 (Or.inr rfl)⟩⟩
          rcases valid with rfl | rfl
          · exact holds.1
          · exact holds.2
        · simp only [if_neg line]
          exact either_bit _
  | store address source =>
      simp only [Contract.precondition, perform]
      by_cases halt : address.value = Isa.haltAddr
      · simp only [if_pos halt]
        exact either_bit _
      · simp only [if_neg halt]
        by_cases data : address.value < Isa.dataLimit
        · simp only [if_pos data]
          exact either_bit _
        · simp only [if_neg data]
          by_cases shown : address.value = Isa.outputAddr ∧ (st.regs source = 0 ∨ st.regs source = 1)
          · simp only [if_pos shown]
            exact either_bit _
          · simp only [if_neg shown]
            exact either_bit _
  | branch op label => exact absurd rfl (straight op label)

theorem straight_rest (input : U64) (st next : SourceState) (statement : Statement)
    (straight : ∀ op label, statement ≠ .branch op label) (ran : perform items input st statement = .running next) :
    next.rest = st.rest := by
  rcases perform_rest items input st next statement ran with same | ⟨op, label, same, _⟩
  · exact same
  · exact absurd same (straight op label)

theorem straight_meets (input : U64) (bit : input = 0 ∨ input = 1) (st : SourceState) (statement : Statement)
    (straight : ∀ op label, statement ≠ .branch op label)
    (holds : contract.precondition (contract.before st.rest) st statement) : contract.Holds (perform items input st statement) := by
  have meets := (precondition_iff contract items _ st statement straight).mp holds input bit
  cases reached : perform items input st statement with
  | stopped stop =>
      rw [reached] at meets
      exact meets
  | running next =>
      rw [reached] at meets
      change next.meets (contract.before next.rest)
      rw [straight_rest items input st next statement straight reached]
      exact meets

theorem perform_meets (input : U64) (bit : input = 0 ∨ input = 1) (st : SourceState) (statement : Statement)
    (obligations : contract.Obligations items)
    (labelled : ∀ op label, statement = .branch op label → ∃ item ∈ items, item.kind = .label label.name)
    (holds : contract.precondition (contract.before st.rest) st statement) : contract.Holds (perform items input st statement) := by
  cases statement with
  | registers op first second | literal op first value | load target address | store address source | negate register =>
      exact straight_meets contract items input bit st _ (fun _ _ same => by cases same) holds
  | branch op label =>
      rw [Contract.precondition] at holds
      rw [perform]
      split
      · rename_i taken
        rw [if_pos taken] at holds
        obtain ⟨rest, found⟩ := Addresses.after_defined Item.kind label.name items (labelled op label rfl)
        rw [found]
        obtain ⟨front, item, rfl, defines, _⟩ := Addresses.after_cases Item.kind label.name items rest found
        cases item with
        | statement statement text => cases defines
        | label name =>
            obtain rfl := Addresses.Kind.label.inj defines
            exact (obligations_suffix contract front _ obligations).1 st holds
      · rename_i passed
        rw [if_neg passed] at holds
        exact holds

theorem step_meets (closed : Closed items) (obligations : contract.Obligations items) (input : U64) (bit : input = 0 ∨ input = 1)
    (st : SourceState) (inside : st.rest <:+ items) (meets : st.meets (contract.before st.rest)) :
    contract.Holds (sourceStep items input st) := by
  obtain ⟨front, whole⟩ := inside
  have here : contract.Obligations st.rest := obligations_suffix contract front st.rest (whole ▸ obligations)
  rw [sourceStep]
  cases next : nextStatement st.rest with
  | none => exact before_finished contract st.rest st here meets next
  | some found =>
      obtain ⟨statement, text, behind⟩ := found
      have holds := before_statement contract st.rest behind st statement text here meets next
      have stands := (place_next items st.rest ⟨front, whole⟩ statement text behind next).1
      exact perform_meets contract items input bit { st with rest := behind } statement obligations
        (fun op label same => closed.labelled op label (same ▸ List.mem_of_getElem? stands)) holds

theorem run_meets (closed : Closed items) (inputs : Nat → U64) (bits : ∀ k, inputs k = 0 ∨ inputs k = 1) (memory : Nat → U8)
    (verified : contract.Verified items memory) (k : Nat) : contract.Holds (sourceRun items inputs memory k) := by
  have kept := Progress.iterate_meets (fun st => st.rest <:+ items ∧ st.meets (contract.before st.rest)) contract.Ends
    (fun k => sourceStep items (inputs k)) (.running (sourceStart memory items)) ⟨List.suffix_refl items, verified.start⟩
    (fun j st live => by
      have holds := step_meets contract items closed verified.obligations (inputs j) (bits j) st live.1 live.2
      cases reached : sourceStep items (inputs j) st with
      | running next =>
          rw [reached] at holds
          exact ⟨step_suffix items (inputs j) st next live.1 reached, holds⟩
      | stopped stop =>
          rw [reached] at holds
          exact holds) k
  rw [sourceRun]
  cases reached : Progress.iterate (fun k => sourceStep items (inputs k)) (.running (sourceStart memory items)) k with
  | running st =>
      rw [reached] at kept
      exact kept.2
  | stopped stop =>
      rw [reached] at kept
      exact kept

end Soundness

theorem loop_meets (source : SourceFile) (items : List Item) (runnable : Runnable source items) (program : Assembler.Program)
    (compiled : Compiled items program.instructions) (texts : program.instructionText = textsOf items ++ [haltText])
    (contract : Contract) (verified : contract.Verified items blankMemory) (opening : OpenEnv) (board : Board) (envs : Nat → IterEnv)
    (opens : Opens opening) (succeeds : ∀ k, Succeeds (envs k)) (k : Nat) :
    Progress.Meets (fun st => ∃ src, Carries items st src ∧ src.meets (contract.before src.rest))
      (fun ended => ∃ st src, ended = .exit 0 st ∧ SameData (codeBytes items) (view st.ctx.cpu st.memory) src ∧
        (src.meets contract.finish ∨ src.meets contract.reject))
      (runLoop (loaded program).text (loaded program).count envs (runStart opening board (loaded program).memory) k) := by
  have carries := loop_carries source items runnable program compiled texts opening board envs opens succeeds k
  have bits (j : Nat) : BitVec.ofInt 64 (envs j).read.input = 0 ∨ BitVec.ofInt 64 (envs j).read.input = (1 : U64) := by
    rcases (succeeds j).bit with low | high
    · exact Or.inl (by rw [low]; rfl)
    · exact Or.inr (by rw [high]; rfl)
  have holds := run_meets contract items runnable.closed (fun j => BitVec.ofInt 64 (envs j).read.input) bits blankMemory verified k
  generalize runLoop _ _ envs _ k = client at carries ⊢
  generalize sourceRun items _ blankMemory k = reader at carries holds
  cases carries with
  | running same => exact ⟨_, same, holds⟩
  | stopped closes =>
      cases closes with
      | finished st src data => exact ⟨st, src, rfl, data, Or.inl holds⟩
      | rejected st src data => exact ⟨st, src, rfl, data, Or.inr holds⟩

section Doubling

def signalAddress : Address := ⟨.lower, ⟨['F', 'F', 'F', 'D'], List.cons_ne_nil _ _, List.all_eq_true.mp rfl, by decide⟩⟩

def numeralTwo : Numeral 10 := ⟨['2'], List.cons_ne_nil _ _, List.all_eq_true.mp rfl, by decide⟩

theorem add_takes_two : takesTwo .add = true := rfl

theorem cmp_takes_two : takesTwo .cmp = true := rfl

theorem jl_branches : Opcode.isBranch .jl = true := rfl

-- L:
-- ADD R0, 1
-- ADD R1, 2
-- MOV R2, [0xFFFD]
-- CMP R2, 1
-- JL L
def doubling : List Item :=
  [.label ['L'], addOneItem, .statement (.literal ⟨.add, add_takes_two⟩ 1 numeralTwo) ['A', 'D', 'D', ' ', 'R', '1', ',', ' ', '2'],
    .statement (.load 2 signalAddress) ['M', 'O', 'V', ' ', 'R', '2', ',', ' ', '[', '0', 'x', 'F', 'F', 'F', 'D', ']'],
    .statement (.literal ⟨.cmp, cmp_takes_two⟩ 2 numeralOne) ['C', 'M', 'P', ' ', 'R', '2', ',', ' ', '1'],
    .statement (.branch ⟨.jl, jl_branches⟩ countLabel) ['J', 'L', ' ', 'L']]

def doublingSource : SourceFile :=
  ⟨['L', ':', '\n', 'A', 'D', 'D', ' ', 'R', '0', ',', ' ', '1', '\n', 'A', 'D', 'D', ' ', 'R', '1', ',', ' ', '2', '\n',
    'M', 'O', 'V', ' ', 'R', '2', ',', ' ', '[', '0', 'x', 'F', 'F', 'F', 'D', ']', '\n',
    'C', 'M', 'P', ' ', 'R', '2', ',', ' ', '1', '\n', 'J', 'L', ' ', 'L', '\n'], by decide⟩

theorem doubling_runnable : Runnable doublingSource doubling where
  short := by decide
  listed := .cons _ _ _ _ (.label _ rfl (by decide))
    (.cons _ _ _ _ (.statement _ ⟨0, 0, 0, 1, 0, true⟩ rfl rfl) (.cons _ _ _ _ (.statement _ ⟨0, 0, 0, 1, 0, true⟩ rfl rfl)
      (.cons _ _ _ _ (.statement _ ⟨0, 0, 0, 1, 0, true⟩ rfl rfl) (.cons _ _ _ _ (.statement _ ⟨0, 0, 0, 1, 0, true⟩ rfl rfl)
        (.cons _ _ _ _ (.statement _ ⟨0, 0, 0, 0, 0, true⟩ rfl rfl) .nil)))))
  closed := ⟨fun op label member => by
    simp only [statementsOf, doubling, addOneItem, List.mem_cons, List.not_mem_nil, or_false, reduceCtorEq, false_or] at member
    cases member
    exact ⟨.label ['L'], List.mem_cons_self, rfl⟩⟩
  above := ⟨fun target address member data => by
      simp only [statementsOf, doubling, addOneItem, List.mem_cons, List.not_mem_nil, or_false, reduceCtorEq, false_or] at member
      cases member
      exact absurd data (by decide),
    fun address source member => by simp [statementsOf, doubling, addOneItem] at member⟩
  fits := by decide

def twice : Contract := ⟨fun regs _ _ => regs 1 = 2 * regs 0, fun _ _ _ => False, fun _ regs _ _ => regs 1 = 2 * regs 0⟩

theorem doubling_verified : twice.Verified doubling blankMemory where
  start := rfl
  obligations := by
    refine ⟨fun st holds => ?_, trivial⟩
    have sum : st.regs 1 + 2 = 2 * (st.regs 0 + 1) := by
      have twofold : st.regs 1 = 2 * st.regs 0 := holds
      rw [twofold, BitVec.mul_add]
      rfl
    have above : ¬ Isa.inputAddr < Isa.dataLimit := by decide
    have line : signalAddress.value = Isa.inputAddr := by decide
    simp only [Contract.before, Contract.precondition, SourceState.meets, addOneItem, twice, line, above, if_true, if_false]
    constructor
    · split <;> exact sum
    · split <;> exact sum

end Doubling

-- A source that meets its contract on paper meets it in the device, at every
-- statement the loop comes to and where it ends.
theorem verified_sources_meet_contract (alloc : Nat → Assembler.Memory) (allocates : Allocates alloc) (source : SourceFile)
    (items : List Item) (runnable : Runnable source items) (contract : Contract) (verified : contract.Verified items blankMemory) :
    ∃ program, parseAssembly alloc (some source) = .ok program ∧
      ∀ opening board envs, Opens opening → (∀ k, Succeeds (envs k)) → ∀ k,
        Progress.Meets (fun st => ∃ src, Carries items st src ∧ src.meets (contract.before src.rest))
          (fun ended => ∃ st src, ended = .exit 0 st ∧ SameData (codeBytes items) (view st.ctx.cpu st.memory) src ∧
            (src.meets contract.finish ∨ src.meets contract.reject))
          (runLoop (loaded program).text (loaded program).count envs (runStart opening board (loaded program).memory) k) := by
  obtain ⟨program, returned⟩ := listing_returned alloc source items runnable.short runnable.listed allocates
  obtain ⟨compiled, texts⟩ := returned_compiled alloc source items program runnable.short runnable.listed runnable.closed returned
  refine ⟨program, returned, fun opening board envs opens succeeds k => ?_⟩
  exact loop_meets source items runnable program compiled texts contract verified opening board envs opens succeeds k

-- R1 is twice R0 in the end, whenever the input line goes up.
theorem verified_sources_meet_contract_twice : ∃ program, parseAssembly freeMemory (some doublingSource) = .ok program ∧
    ∀ envs, (∀ k, Succeeds (envs k)) → ∀ k st,
      runLoop (loaded program).text (loaded program).count envs (runStart startedOpening darkBoard (loaded program).memory) k =
        .stopped (.exit 0 st) → st.ctx.cpu.regs 1 = 2 * st.ctx.cpu.regs 0 := by
  obtain ⟨program, returned, meets⟩ := verified_sources_meet_contract freeMemory (fun _ => ⟨rfl, rfl⟩) doublingSource doubling
    doubling_runnable twice doubling_verified
  refine ⟨program, returned, fun envs succeeds k st ended => ?_⟩
  have final := meets startedOpening darkBoard envs ⟨by decide, rfl, by decide⟩ succeeds k
  rw [ended] at final
  obtain ⟨_, src, same, data, finish | reject⟩ := final
  · cases same
    have regs : st.ctx.cpu.regs = src.regs := data.regs
    rw [regs]
    exact finish
  · exact reject.elim

end CpuEmulator.Language
