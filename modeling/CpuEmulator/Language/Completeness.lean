import CpuEmulator.Language.Assertions

set_option autoImplicit false

namespace CpuEmulator.Language

open Library Assembler Driver Userspace

def labelsOf : List Item → List Text
  | [] => []
  | .label name :: rest => name :: labelsOf rest
  | .statement _ _ :: rest => labelsOf rest

def Distinct (items : List Item) : Prop := (labelsOf items).Nodup

instance (items : List Item) : Decidable (Distinct items) := inferInstanceAs (Decidable (labelsOf items).Nodup)

def delivered (bit : U64) (inputs : Nat → U64) : Nat → U64
  | 0 => bit
  | k + 1 => inputs k

section Labels

variable (name : Text)

theorem labels_append (front back : List Item) : labelsOf (front ++ back) = labelsOf front ++ labelsOf back := by
  induction front with
  | nil => rfl
  | cons item front ih =>
      cases item with
      | label name => exact congrArg (name :: ·) ih
      | statement statement text => exact ih

theorem label_listed (rest : List Item) (defined : ∃ item ∈ rest, item.kind = .label name) : name ∈ labelsOf rest := by
  obtain ⟨item, member, defines⟩ := defined
  obtain ⟨front, behind, rfl⟩ := List.append_of_mem member
  rw [labels_append]
  refine List.mem_append_right _ ?_
  cases item with
  | statement statement text => cases defines
  | label other =>
      obtain rfl := Addresses.Kind.label.inj defines
      exact List.mem_cons_self

theorem distinct_after (front rest : List Item) (distinct : Distinct (front ++ .label name :: rest)) :
    Addresses.after Item.kind name (front ++ .label name :: rest) = some rest := by
  rw [Distinct, labels_append] at distinct
  have once := (List.nodup_cons.mp (List.nodup_append.mp distinct).2.1).1
  have missing : Addresses.after Item.kind name rest = none := by
    cases found : Addresses.after Item.kind name rest with
    | none => rfl
    | some later =>
        obtain ⟨earlier, item, rfl, defines, _⟩ := Addresses.after_cases Item.kind name rest later found
        exact absurd (label_listed name _ ⟨item, List.mem_append_right _ List.mem_cons_self, defines⟩) once
  have here : Addresses.after Item.kind name (.label name :: rest) = some rest := by
    rw [Addresses.after, missing, Option.none_or]
    exact if_pos rfl
  rw [Addresses.after_append, here, Option.some_or]

end Labels

section Completeness

variable (contract : Contract) (items : List Item)

-- However it runs on from here, it ends as the contract says.
def Contract.Safe (st : SourceState) : Prop :=
  ∀ inputs : Nat → U64, (∀ k, inputs k = 0 ∨ inputs k = 1) → ∀ k,
    Progress.Meets (fun _ => True) contract.Ends (resume items inputs st k)

def Contract.annotated : Contract :=
  { contract with
    label := fun name regs compared memory =>
      ∀ rest, Addresses.after Item.kind name items = some rest → contract.Safe items ⟨regs, compared, memory, rest⟩ }

theorem resume_succ (bit : U64) (inputs : Nat → U64) (st : SourceState) (k : Nat) :
    resume items (delivered bit inputs) st (k + 1) =
      (sourceStep items bit st).bind (fun next => resume items inputs next k) := by
  induction k with
  | zero =>
      change sourceStep items bit st = _
      cases sourceStep items bit st <;> rfl
  | succ k ih =>
      change (resume items (delivered bit inputs) st (k + 1)).bind _ = _
      rw [ih]
      cases sourceStep items bit st <;> rfl

theorem delivered_bits (bit : U64) (inputs : Nat → U64) (first : bit = 0 ∨ bit = 1)
    (later : ∀ k, inputs k = 0 ∨ inputs k = 1) (k : Nat) : delivered bit inputs k = 0 ∨ delivered bit inputs k = 1 := by
  cases k with
  | zero => exact first
  | succ k => exact later k

theorem safe_iff (st : SourceState) : contract.Safe items st ↔
    ∀ bit : U64, bit = 0 ∨ bit = 1 → Progress.Meets (contract.Safe items) contract.Ends (sourceStep items bit st) := by
  constructor
  · intro safe bit valid
    have onwards (inputs : Nat → U64) (bits : ∀ k, inputs k = 0 ∨ inputs k = 1) (k : Nat) :=
      safe (delivered bit inputs) (delivered_bits bit inputs valid bits) (k + 1)
    simp only [resume_succ] at onwards
    cases reached : sourceStep items bit st with
    | running next =>
        rw [reached] at onwards
        exact onwards
    | stopped stop =>
        rw [reached] at onwards
        exact onwards (fun _ => 0) (fun _ => Or.inl rfl) 0
  · intro steps inputs bits k
    cases k with
    | zero => trivial
    | succ k =>
        have same : inputs = delivered (inputs 0) (fun k => inputs (k + 1)) := by
          funext i
          cases i <;> rfl
        have meets := steps (inputs 0) (bits 0)
        rw [same, resume_succ]
        cases reached : sourceStep items (inputs 0) st with
        | running next =>
            rw [reached] at meets
            exact meets _ (fun k => bits (k + 1)) k
        | stopped stop =>
            rw [reached] at meets
            exact meets

theorem safe_behind_label (regs : Fin 4 → U64) (compared : Ordering) (memory : Nat → U8) (name : Text) (rest : List Item)
    (safe : contract.Safe items ⟨regs, compared, memory, .label name :: rest⟩) :
    contract.Safe items ⟨regs, compared, memory, rest⟩ := by
  rw [safe_iff] at safe ⊢
  intro bit valid
  have meets := safe bit valid
  rw [sourceStep] at meets ⊢
  have next : nextStatement (.label name :: rest) = nextStatement rest := rfl
  dsimp only at meets ⊢
  rw [next] at meets
  cases found : nextStatement rest with
  | none =>
      rw [found] at meets
      exact meets
  | some step =>
      rw [found] at meets
      exact meets

theorem safe_straight (rest : List Item) (st : SourceState) (here : st.rest = rest) (statement : Statement)
    (straight : ∀ op label, statement ≠ .branch op label)
    (steps : ∀ bit : U64, bit = 0 ∨ bit = 1 →
      Progress.Meets (contract.Safe items) contract.Ends (perform items bit st statement))
    (later : ∀ next : SourceState, next.rest = rest → contract.Safe items next →
      next.meets ((contract.annotated items).before rest)) :
    (contract.annotated items).precondition ((contract.annotated items).before rest) st statement := by
  refine (precondition_iff (contract.annotated items) items _ st statement straight).mpr fun bit valid => ?_
  have meets := steps bit valid
  cases reached : perform items bit st statement with
  | running next =>
      rw [reached] at meets
      exact later next ((straight_rest items bit st next statement straight reached).trans here) meets
  | stopped stop =>
      rw [reached] at meets
      exact meets

-- A safe state meets what the rules compute from the weakest assertions.
theorem safe_meets (distinct : Distinct items) (rest : List Item) (inside : rest <:+ items) (st : SourceState)
    (here : st.rest = rest) (safe : contract.Safe items st) : st.meets ((contract.annotated items).before rest) := by
  induction rest generalizing st with
  | nil =>
      have meets := (safe_iff contract items st).mp safe 0 (Or.inl rfl)
      rw [sourceStep, here] at meets
      exact meets
  | cons item rest ih =>
      obtain ⟨regs, compared, memory, _⟩ := st
      obtain rfl := here
      have behind : rest <:+ items := (List.suffix_cons item rest).trans inside
      cases item with
      | label name =>
          obtain ⟨front, rfl⟩ := inside
          intro later found
          rw [distinct_after name front rest distinct] at found
          obtain rfl := Option.some.inj found
          exact safe_behind_label contract _ regs compared memory name rest safe
      | statement statement text =>
          have steps (bit : U64) (valid : bit = 0 ∨ bit = 1) :
              Progress.Meets (contract.Safe items) contract.Ends (perform items bit ⟨regs, compared, memory, rest⟩ statement) :=
            (safe_iff contract items _).mp safe bit valid
          change (contract.annotated items).precondition _ ⟨regs, compared, memory, rest⟩ statement
          cases statement with
          | registers op first second | literal op first value | load target address | store address source | negate register =>
              exact safe_straight contract items rest ⟨regs, compared, memory, rest⟩ rfl _ (fun _ _ same => by cases same)
                steps (ih behind)
          | branch op label =>
              have low := steps 0 (Or.inl rfl)
              rw [perform] at low
              rw [Contract.precondition]
              split
              · rename_i taken
                rw [if_pos taken] at low
                intro later found
                rw [found] at low
                exact low
              · rename_i passed
                rw [if_neg passed] at low
                exact ih behind _ rfl low

theorem annotated_obligations (distinct : Distinct items) (rest : List Item) (inside : rest <:+ items) :
    (contract.annotated items).Obligations rest := by
  induction rest with
  | nil => trivial
  | cons item rest ih =>
      have behind : rest <:+ items := (List.suffix_cons item rest).trans inside
      cases item with
      | statement statement text => exact ih behind
      | label name =>
          refine ⟨fun st holds => ?_, ih behind⟩
          obtain ⟨front, whole⟩ := inside
          have found : Addresses.after Item.kind name items = some rest := by
            rw [← whole]
            exact distinct_after name front rest (whole ▸ distinct)
          exact safe_meets contract items distinct rest behind ⟨st.regs, st.compared, st.memory, rest⟩ rfl (holds rest found)

theorem safe_verified (distinct : Distinct items) (memory : Nat → U8) (safe : contract.Safe items (sourceStart memory items)) :
    (contract.annotated items).Verified items memory where
  start := safe_meets contract items distinct items (List.suffix_refl items) (sourceStart memory items) rfl safe
  obligations := annotated_obligations contract items distinct items (List.suffix_refl items)

end Completeness

def leavesIn (post : (Fin 4 → U64) → Prop) (label : Text → Assertion) : Contract :=
  ⟨fun regs _ _ => post regs, fun regs _ _ => post regs, label⟩

def linesOf (inputs : Nat → U64) (k : Nat) : IterEnv := ⟨false, ⟨0, if inputs k = 0 then 0 else 1, false⟩, false, 16, 16⟩

theorem lines_succeed (inputs : Nat → U64) (k : Nat) : Succeeds (linesOf inputs k) where
  sent := rfl
  woken := rfl
  copied := rfl
  answered := rfl
  bit := by
    rw [linesOf]
    split
    · exact Or.inl rfl
    · exact Or.inr rfl

theorem lines_deliver (inputs : Nat → U64) (k : Nat) (bit : inputs k = 0 ∨ inputs k = 1) :
    BitVec.ofInt 64 (linesOf inputs k).read.input = inputs k := by
  rw [linesOf]
  rcases bit with low | high
  · rw [low]
    rfl
  · rw [high]
    rfl

-- Nothing that the device guarantees about the registers is out of reach of the
-- rules, whatever the input line delivers.
theorem registers_contract_iff (alloc : Nat → Assembler.Memory) (allocates : Allocates alloc) (source : SourceFile)
    (items : List Item) (runnable : Runnable source items) (distinct : Distinct items) (post : (Fin 4 → U64) → Prop) :
    ∃ program, parseAssembly alloc (some source) = .ok program ∧
      ∀ opening board, Opens opening →
        ((∃ label, (leavesIn post label).Verified items blankMemory) ↔
          ∀ envs, (∀ k, Succeeds (envs k)) → ∀ k st,
            runLoop (loaded program).text (loaded program).count envs (runStart opening board (loaded program).memory) k =
              .stopped (.exit 0 st) → post st.ctx.cpu.regs) := by
  obtain ⟨program, returned⟩ := listing_returned alloc source items runnable.short runnable.listed allocates
  obtain ⟨compiled, texts⟩ := returned_compiled alloc source items program runnable.short runnable.listed runnable.closed returned
  refine ⟨program, returned, fun opening board opens => ⟨?_, fun outcome => ?_⟩⟩
  · rintro ⟨label, verified⟩ envs succeeds k st ended
    have meets := loop_meets source items runnable program compiled texts _ verified opening board envs opens succeeds k
    rw [ended] at meets
    obtain ⟨_, src, same, data, holds⟩ := meets
    cases same
    have regs : st.ctx.cpu.regs = src.regs := data.regs
    rw [regs]
    exact holds.elim id id
  · refine ⟨_, safe_verified (leavesIn post fun _ _ _ _ => True) items distinct blankMemory fun inputs bits k => ?_⟩
    have carries := loop_carries source items runnable program compiled texts opening board (linesOf inputs) opens
      (lines_succeed inputs) k
    have ends := outcome (linesOf inputs) (lines_succeed inputs) k
    simp only [lines_deliver inputs _ (bits _)] at carries
    change Progress.Meets _ _ (sourceRun items inputs blankMemory k)
    generalize runLoop _ _ _ _ k = client at carries ends
    generalize sourceRun items inputs blankMemory k = reader at carries ⊢
    cases carries with
    | running _ => trivial
    | stopped closes =>
        cases closes with
        | finished st src data =>
            have regs : st.ctx.cpu.regs = src.regs := data.regs
            change post src.regs
            rw [← regs]
            exact ends st rfl
        | rejected st src data =>
            have regs : st.ctx.cpu.regs = src.regs := data.regs
            change post src.regs
            rw [← regs]
            exact ends st rfl

-- No annotation shows that R1 stays 0, because it is 2 when the line is up at once.
theorem registers_contract_iff_doubling : ¬ ∃ label, (leavesIn (fun regs => regs 1 = 0) label).Verified doubling blankMemory := by
  have opens : Opens startedOpening := ⟨by decide, rfl, by decide⟩
  obtain ⟨program, returned, decides⟩ := registers_contract_iff freeMemory (fun _ => ⟨rfl, rfl⟩) doublingSource doubling
    doubling_runnable (by decide) (fun regs => regs 1 = 0)
  obtain ⟨compiled, texts⟩ := returned_compiled freeMemory doublingSource doubling program doubling_runnable.short
    doubling_runnable.listed doubling_runnable.closed returned
  have carries := loop_carries doublingSource doubling doubling_runnable program compiled texts startedOpening darkBoard
    (linesOf fun _ => 1) opens (lines_succeed _) 6
  obtain ⟨src, final, two⟩ : ∃ src, sourceRun doubling (fun j => BitVec.ofInt 64 (linesOf (fun _ => 1) j).read.input) blankMemory 6 =
      .stopped (.finished src) ∧ src.regs 1 = 2 := ⟨_, rfl, rfl⟩
  rw [final] at carries
  intro annotated
  have stays := (decides startedOpening darkBoard opens).mp annotated (linesOf fun _ => 1) (lines_succeed _) 6
  generalize runLoop _ _ _ _ 6 = client at carries stays
  cases carries with
  | stopped closes =>
      cases closes with
      | finished st _ data =>
          have zero : st.ctx.cpu.regs 1 = 0 := stays st rfl
          have same : st.ctx.cpu.regs 1 = src.regs 1 := congrFun data.regs 1
          rw [zero, two] at same
          exact absurd same (by decide)

end CpuEmulator.Language
