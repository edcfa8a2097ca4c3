import CpuEmulator.Language.Preservation

set_option autoImplicit false

namespace CpuEmulator.Language

open Library Assembler Isa Driver Userspace

def SourceState.before (back : List Item) (st : SourceState) : SourceState := { st with rest := st.rest ++ back }

def SourceStop.before (back : List Item) : SourceStop → SourceStop
  | .finished st => .finished (st.before back)
  | .rejected st => .rejected (st.before back)
  | .unlabelled st => .unlabelled (st.before back)

def inFront (back : List Item) : SourceProgress → SourceProgress
  | .running st => .running (st.before back)
  | .stopped stop => .stopped (stop.before back)

def resume (items : List Item) (inputs : Nat → U64) (st : SourceState) : Nat → SourceProgress :=
  Progress.iterate (fun k => sourceStep items (inputs k)) (.running st)

def RunsOut (items : List Item) (inputs : Nat → U64) (memory : Nat → U8) (k : Nat) (st : SourceState) : Prop :=
  sourceRun items inputs memory k = .running st ∧ nextStatement st.rest = none

structure Agrees (st other : SourceState) : Prop where
  regs : st.regs = other.regs
  compared : st.compared = other.compared
  memory : st.memory = other.memory
  next : nextStatement st.rest = nextStatement other.rest

inductive EndsAgree : SourceStop → SourceStop → Prop where
  | finished (st other : SourceState) (agrees : Agrees st other) : EndsAgree (.finished st) (.finished other)
  | same (stop : SourceStop) : EndsAgree stop stop

section Parts

variable (front back : List Item)

theorem next_statement_append (rest : List Item) : nextStatement (rest ++ back) =
    match nextStatement rest with
    | none => nextStatement back
    | some (statement, text, behind) => some (statement, text, behind ++ back) := by
  induction rest with
  | nil => rfl
  | cons item rest ih =>
      cases item with
      | label name => exact ih
      | statement statement text => rfl

theorem operate_before (st : SourceState) (op : Opcode) (first : Fin 4) (value : U64) :
    (st.before back).operate op first value = (st.operate op first value).before back := by
  cases op <;> rfl

theorem perform_in_front (input : U64) (st : SourceState) (statement : Statement)
    (apart : ∀ op label, statement = .branch op label → ∀ item ∈ back, item.kind ≠ .label label.name) :
    perform (front ++ back) input (st.before back) statement = inFront back (perform front input st statement) := by
  cases statement with
  | registers op first second => exact congrArg Progress.running (operate_before back st op.val first _)
  | literal op first value => exact congrArg Progress.running (operate_before back st op.val first _)
  | negate register => rfl
  | load target address =>
      rw [perform, perform]
      split
      · rfl
      · split <;> rfl
  | store address source =>
      rw [perform, perform]
      split
      · rfl
      · split
        · rfl
        · have same : (st.before back).regs = st.regs := rfl
          rw [same]
          split <;> rfl
  | branch op label =>
      have missing : Addresses.after Item.kind label.name back = none := by
        cases found : Addresses.after Item.kind label.name back with
        | none => rfl
        | some rest =>
            obtain ⟨earlier, item, rfl, defines, _⟩ := Addresses.after_cases Item.kind label.name back rest found
            exact absurd defines (apart op label rfl item (List.mem_append_right _ List.mem_cons_self))
      have found := Addresses.after_append Item.kind label.name front back
      rw [missing, Option.none_or] at found
      rw [perform, perform, found]
      have same : (st.before back).compared = st.compared := rfl
      rw [same]
      split
      · cases Addresses.after Item.kind label.name front <;> rfl
      · rfl

theorem perform_behind (input : U64) (st : SourceState) (statement : Statement)
    (labelled : ∀ op label, statement = .branch op label → ∃ item ∈ back, item.kind = .label label.name) :
    perform (front ++ back) input st statement = perform back input st statement := by
  cases statement with
  | registers op first second | literal op first value | negate register | load target address | store address source => rfl
  | branch op label =>
      obtain ⟨rest, found⟩ := Addresses.after_defined Item.kind label.name back (labelled op label rfl)
      rw [perform, perform, Addresses.after_append, found, Option.some_or]

theorem perform_suffix (input : U64) (st next : SourceState) (statement : Statement) (suffix : st.rest <:+ back)
    (ran : perform back input st statement = .running next) : next.rest <:+ back := by
  rcases perform_rest back input st next statement ran with same | ⟨op, label, _, found⟩
  · exact same ▸ suffix
  · exact Addresses.after_suffix Item.kind label.name back next.rest found

theorem step_in_front (input : U64) (st : SourceState) (more : nextStatement st.rest ≠ none) (inside : st.rest <:+ front)
    (apart : ∀ op label, .branch op label ∈ statementsOf front → ∀ item ∈ back, item.kind ≠ .label label.name) :
    sourceStep (front ++ back) input (st.before back) = inFront back (sourceStep front input st) := by
  have whole : nextStatement (st.before back).rest = nextStatement (st.rest ++ back) := rfl
  rw [sourceStep, sourceStep, whole, next_statement_append]
  cases next : nextStatement st.rest with
  | none => exact absurd next more
  | some found =>
      obtain ⟨statement, text, behind⟩ := found
      have here := (place_next front st.rest inside statement text behind next).1
      refine perform_in_front front back input { st with rest := behind } statement fun op label same => ?_
      exact apart op label (same ▸ List.mem_of_getElem? here)

theorem step_suffix (items : List Item) (input : U64) (st next : SourceState) (inside : st.rest <:+ items)
    (ran : sourceStep items input st = .running next) : next.rest <:+ items := by
  rw [sourceStep] at ran
  cases found : nextStatement st.rest with
  | none =>
      rw [found] at ran
      cases ran
  | some step =>
      obtain ⟨statement, text, behind⟩ := step
      rw [found] at ran
      have later := (place_next items st.rest inside statement text behind found).2.2
      exact perform_suffix items input { st with rest := behind } next statement later ran

theorem step_behind (input : U64) (st : SourceState) (closed : Closed back) (inside : st.rest <:+ back) :
    sourceStep (front ++ back) input st = sourceStep back input st := by
  rw [sourceStep, sourceStep]
  cases next : nextStatement st.rest with
  | none => rfl
  | some found =>
      obtain ⟨statement, text, behind⟩ := found
      have here := (place_next back st.rest inside statement text behind next).1
      refine perform_behind front back input { st with rest := behind } statement fun op label same => ?_
      exact closed.labelled op label (same ▸ List.mem_of_getElem? here)

end Parts

section Runs

variable (front back : List Item) (inputs : Nat → U64) (memory : Nat → U8)

theorem resume_suffix (items : List Item) (start st : SourceState) (inside : start.rest <:+ items) (k : Nat)
    (ran : resume items inputs start k = .running st) : st.rest <:+ items := by
  induction k generalizing st with
  | zero =>
      obtain rfl := Progress.running.inj ran
      exact inside
  | succ k ih =>
      obtain ⟨before, reached, step⟩ := Progress.iterate_running_before _ _ k st ran
      exact step_suffix items (inputs k) before st (ih before reached) step

theorem run_in_front (apart : ∀ op label, .branch op label ∈ statementsOf front → ∀ item ∈ back, item.kind ≠ .label label.name)
    (k : Nat) (busy : ∀ j < k, ∀ st, ¬ RunsOut front inputs memory j st) :
    sourceRun (front ++ back) inputs memory k = inFront back (sourceRun front inputs memory k) := by
  induction k with
  | zero => rfl
  | succ k ih =>
      have same := ih fun j below => busy j (Nat.lt_succ_of_lt below)
      change (sourceRun (front ++ back) inputs memory k).bind _ = inFront back ((sourceRun front inputs memory k).bind _)
      rw [same]
      cases reached : sourceRun front inputs memory k with
      | stopped stop => rfl
      | running st =>
          have more : nextStatement st.rest ≠ none := fun ended => busy k (Nat.lt_succ_self k) st ⟨reached, ended⟩
          have inside := resume_suffix inputs front (sourceStart memory front) st (List.suffix_refl front) k reached
          exact step_in_front front back (inputs k) st more inside apart

theorem resume_behind (closed : Closed back) (start : SourceState) (inside : start.rest <:+ back) (k : Nat) :
    resume (front ++ back) inputs start k = resume back inputs start k := by
  induction k with
  | zero => rfl
  | succ k ih =>
      change (resume (front ++ back) inputs start k).bind _ = (resume back inputs start k).bind _
      rw [ih]
      cases reached : resume back inputs start k with
      | stopped stop => rfl
      | running st => exact step_behind front back (inputs k) st closed (resume_suffix inputs back start st inside k reached)

theorem runs_out_once (i j : Nat) (st other : SourceState) (first : RunsOut front inputs memory i st)
    (second : RunsOut front inputs memory j other) : j ≤ i := by
  refine Nat.le_of_not_lt fun below => ?_
  have gone : sourceRun front inputs memory (i + 1) = .stopped (.finished st) := by
    refine (Progress.iterate_from_running _ _ i st first.1).trans ?_
    rw [sourceStep, first.2]
  have still := Progress.iterate_stays _ _ (i + 1) j _ below gone
  have running := second.1
  rw [sourceRun, still] at running
  cases running

theorem step_agrees (items : List Item) (input : U64) (st other : SourceState) (agrees : Agrees st other) :
    Progress.Related Agrees EndsAgree (sourceStep items input st) (sourceStep items input other) := by
  obtain ⟨regs, compared, memory, rest⟩ := st
  obtain ⟨_, _, _, left⟩ := other
  obtain ⟨rfl, rfl, rfl, next⟩ := agrees
  dsimp only at next
  rw [sourceStep, sourceStep]
  dsimp only
  rw [next]
  cases found : nextStatement left with
  | none => exact .stopped (.finished _ _ ⟨rfl, rfl, rfl, next⟩)
  | some step =>
      obtain ⟨statement, text, behind⟩ := step
      dsimp only
      cases perform items input ⟨regs, compared, memory, behind⟩ statement with
      | running st => exact .running ⟨rfl, rfl, rfl, rfl⟩
      | stopped stop => exact .stopped (.same stop)

theorem run_behind (apart : ∀ op label, .branch op label ∈ statementsOf front → ∀ item ∈ back, item.kind ≠ .label label.name)
    (closed : Closed back) (j : Nat) (st : SourceState) (out : RunsOut front inputs memory j st) (k : Nat) :
    Progress.Related Agrees EndsAgree (sourceRun (front ++ back) inputs memory (j + k))
      (resume back (fun i => inputs (j + i)) { st with rest := back } k) := by
  have reached : sourceRun (front ++ back) inputs memory j = .running (st.before back) := by
    rw [run_in_front front back inputs memory apart j fun i below other ended =>
      absurd (runs_out_once front inputs memory i j other st ended out) (Nat.not_le_of_lt below), out.1]
    rfl
  have left : nextStatement (st.rest ++ back) = nextStatement back := by rw [next_statement_append, out.2]
  have agrees : Agrees (st.before back) { st with rest := back } := ⟨rfl, rfl, rfl, left⟩
  have later := Progress.iterate_add (fun i => sourceStep (front ++ back) (inputs i))
    (.running (sourceStart memory (front ++ back))) j k
  rw [← resume_behind front back _ closed { st with rest := back } (List.suffix_refl back) k, sourceRun, later]
  rw [sourceRun] at reached
  rw [reached]
  exact (Progress.iterate_related Agrees EndsAgree (fun _ => True) _ _ _ _ (.running agrees) (fun _ _ => trivial)
    (fun _ _ _ _ _ => trivial)
    (fun i one two agrees _ => step_agrees (front ++ back) (inputs (j + i)) one two agrees) k).1

end Runs

section Files

variable (front back : List Item)

theorem source_lines_joined (first second : Text) (ended : first.getLast? = some '\n') :
    sourceLines (first ++ second) = sourceLines first ++ sourceLines second := by
  induction first with
  | nil => cases ended
  | cons c first ih =>
      cases first with
      | nil =>
          obtain rfl := Option.some.inj ended
          rfl
      | cons next first =>
          have joined := ih ended
          obtain ⟨more, lines, nonempty⟩ := source_lines_cons next first
          generalize next :: first = rest at joined nonempty ⊢
          rw [List.cons_append, sourceLines, joined, nonempty, sourceLines, nonempty]
          split <;> rfl

theorem listing_append (lines others : List Text) (first : Listing lines front) (second : Listing others back) :
    Listing (lines ++ others) (front ++ back) := by
  induction first with
  | nil => exact second
  | cons line lines said items here _ ih =>
      rw [List.append_assoc]
      exact .cons line _ said _ here ih

theorem closed_append (first : Closed front) (second : Closed back) : Closed (front ++ back) where
  labelled := by
    intro op label member
    rw [statements_of_append] at member
    obtain inside | behind := List.mem_append.mp member
    · obtain ⟨item, there, defines⟩ := first.labelled op label inside
      exact ⟨item, List.mem_append_left _ there, defines⟩
    · obtain ⟨item, there, defines⟩ := second.labelled op label behind
      exact ⟨item, List.mem_append_right _ there, defines⟩

-- Two files that main can run, one written behind the other. The second one
-- defines nothing that the first one branches to, and there is room for both.
structure Sequenced (source other joined : SourceFile) : Prop where
  first : Runnable source front
  second : Runnable other back
  together : joined.bytes = source.bytes ++ other.bytes
  ended : source.bytes.getLast? = some '\n'
  apart : ∀ op label, .branch op label ∈ statementsOf front → ∀ item ∈ back, item.kind ≠ .label label.name
  above : Above (front ++ back) (codeBytes (front ++ back))
  fits : codeBytes (front ++ back) + instrSize ≤ memSize

theorem sequenced_runnable (source other joined : SourceFile) (sequenced : Sequenced front back source other joined) :
    Runnable joined (front ++ back) := by
  have lines : sourceLines joined.bytes = sourceLines source.bytes ++ sourceLines other.bytes := by
    rw [sequenced.together, source_lines_joined source.bytes other.bytes sequenced.ended]
  refine ⟨fun line member => ?_, ?_, closed_append front back sequenced.first.closed sequenced.second.closed, sequenced.above,
    sequenced.fits⟩
  · rw [lines] at member
    obtain inside | behind := List.mem_append.mp member
    · exact sequenced.first.short line inside
    · exact sequenced.second.short line behind
  · rw [lines]
    exact listing_append front back _ _ sequenced.first.listed sequenced.second.listed

end Files

section Handover

variable (items : List Item) (st : RunState) (one two : SourceState)

theorem statements_of_next (rest left : List Item) (next : nextStatement rest = nextStatement left) :
    statementsOf rest = statementsOf left := by
  cases found : nextStatement left with
  | none => rw [next_statement_none left found, next_statement_none rest (next.trans found)]
  | some step =>
      obtain ⟨statement, text, behind⟩ := step
      rw [(next_statement_some left behind statement text found).1,
        (next_statement_some rest behind statement text (next.trans found)).1]

theorem agrees_same (bytes : Nat) (m : Machine) (agrees : Agrees one two) (data : SameData bytes m one) : SameData bytes m two := by
  obtain ⟨regs, compared, memory, _⟩ := agrees
  exact ⟨regs ▸ data.regs, compared ▸ data.flags, memory ▸ data.memory⟩

theorem agrees_carries (agrees : Agrees one two) (inside : two.rest <:+ items) (carries : Carries items st one) :
    Carries items st two := by
  refine ⟨agrees_same one two _ _ agrees carries.data, inside, ?_⟩
  have place_same : place items two.rest = place items one.rest := by
    rw [place, place, statements_of_next one.rest two.rest agrees.next]
  rw [place_same]
  exact carries.pc

theorem agrees_closes (ended : LoopEnd) (stop other : SourceStop) (agrees : EndsAgree stop other)
    (closes : Closes items ended stop) : Closes items ended other := by
  cases agrees with
  | same => exact closes
  | finished one two agrees =>
      cases closes with
      | finished st _ data => exact .finished st two (agrees_same one two _ _ agrees data)

theorem agrees_related (client : LoopStep) (joined reader : SourceProgress)
    (carries : Progress.Related (Carries items) (Closes items) client joined)
    (agrees : Progress.Related Agrees EndsAgree joined reader) (inside : ∀ st, reader = .running st → st.rest <:+ items) :
    Progress.Related (Carries items) (Closes items) client reader := by
  cases agrees with
  | running agrees =>
      cases carries with
      | running carries => exact .running (agrees_carries items _ _ _ agrees (inside _ rfl) carries)
  | stopped agrees =>
      cases carries with
      | stopped closes => exact .stopped (agrees_closes items _ _ _ agrees closes)

end Handover

-- The first file runs as if it were alone, and where it ends the second one is
-- handed its registers, its last comparison and its memory.
theorem sources_run_in_sequence (alloc : Nat → Assembler.Memory) (allocates : Allocates alloc) (source other joined : SourceFile)
    (front back : List Item) (sequenced : Sequenced front back source other joined) :
    ∃ program, parseAssembly alloc (some joined) = .ok program ∧
      ∀ opening board (envs : Nat → IterEnv) (inputs : Nat → U64), Opens opening → (∀ k, Succeeds (envs k)) →
        (∀ k, inputs k = BitVec.ofInt 64 (envs k).read.input) →
        (∀ k, (∀ j < k, ∀ st, ¬ RunsOut front inputs blankMemory j st) →
          Progress.Related (Carries (front ++ back)) (Closes (front ++ back))
            (runLoop (loaded program).text (loaded program).count envs (runStart opening board (loaded program).memory) k)
            (inFront back (sourceRun front inputs blankMemory k)) ∧
          Reports (front ++ back) (mainAfter alloc (some joined) opening board envs k)
            (inFront back (sourceRun front inputs blankMemory k))) ∧
        ∀ j st, RunsOut front inputs blankMemory j st → ∀ k,
          Progress.Related (Carries (front ++ back)) (Closes (front ++ back))
            (runLoop (loaded program).text (loaded program).count envs (runStart opening board (loaded program).memory) (j + k))
            (resume back (fun i => inputs (j + i)) { st with rest := back } k) ∧
          Reports (front ++ back) (mainAfter alloc (some joined) opening board envs (j + k))
            (resume back (fun i => inputs (j + i)) { st with rest := back } k) := by
  have runnable := sequenced_runnable front back source other joined sequenced
  obtain ⟨program, returned⟩ := listing_returned alloc joined _ runnable.short runnable.listed allocates
  obtain ⟨compiled, texts⟩ := returned_compiled alloc joined _ program runnable.short runnable.listed runnable.closed returned
  refine ⟨program, returned, fun opening board envs inputs opens succeeds read => ?_⟩
  obtain rfl : inputs = fun k => BitVec.ofInt 64 (envs k).read.input := funext read
  have carries := loop_carries joined _ runnable program compiled texts opening board envs opens succeeds
  have reports := loop_reports (front ++ back) program alloc joined returned opening board envs
  refine ⟨fun k busy => ?_, fun j st out k => ?_⟩
  · have alone := carries k
    rw [run_in_front front back _ blankMemory sequenced.apart k busy] at alone
    exact ⟨alone, reports k _ alone⟩
  · have agrees := run_behind front back _ blankMemory sequenced.apart sequenced.second.closed j st out k
    have handed := agrees_related (front ++ back) _ _ _ (carries (j + k)) agrees fun last reached =>
      (resume_suffix _ back { st with rest := back } last (List.suffix_refl back) k reached).trans (List.suffix_append front back)
    exact ⟨handed, reports (j + k) _ handed⟩

section AddTwice

def addLine : Text := ['A', 'D', 'D', ' ', 'R', '0', ',', ' ', '1', '\n']

def addLineSource : SourceFile := ⟨addLine, by decide⟩

def addTwiceSource : SourceFile := ⟨addLine ++ addLine, by decide⟩

theorem add_line_runnable : Runnable addLineSource [addOneItem] where
  short := by decide
  listed := .cons _ _ _ _ (.statement _ ⟨0, 0, 0, 1, 0, true⟩ rfl rfl) .nil
  closed := ⟨fun op label member => by cases List.mem_singleton.mp member⟩
  above := ⟨fun target address member => (by cases List.mem_singleton.mp member),
    fun address source member => (by cases List.mem_singleton.mp member)⟩
  fits := by decide

theorem add_twice_sequenced : Sequenced [addOneItem] [addOneItem] addLineSource addLineSource addTwiceSource where
  first := add_line_runnable
  second := add_line_runnable
  together := rfl
  ended := rfl
  apart := fun op label member => by cases List.mem_singleton.mp member
  above := ⟨fun target address member => by simp [statementsOf, addOneItem] at member,
    fun address source member => by simp [statementsOf, addOneItem] at member⟩
  fits := by decide

end AddTwice

theorem sources_run_in_sequence_add_twice :
    ∃ st, mainAfter freeMemory (some addTwiceSource) startedOpening darkBoard (fun _ => pressedEnv) 2 = .inRun st ∧
      st.ctx.cpu.regs 0 = 2 := by
  obtain ⟨_, _, runs⟩ := sources_run_in_sequence freeMemory (fun _ => ⟨rfl, rfl⟩) addLineSource addLineSource addTwiceSource
    [addOneItem] [addOneItem] add_twice_sequenced
  have reports := ((runs startedOpening darkBoard (fun _ => pressedEnv) _ ⟨by decide, rfl, by decide⟩
    (fun _ => ⟨rfl, rfl, rfl, rfl, Or.inr rfl⟩) (fun _ => rfl)).2 1
    ⟨Function.update (fun _ => 0) 0 1, .gt, blankMemory, []⟩ ⟨rfl, rfl⟩ 1).2
  generalize mainAfter _ _ _ _ _ _ = client at reports ⊢
  cases reports with
  | inRun st _ carries => exact ⟨st, rfl, congrFun carries.data.regs 0⟩

end CpuEmulator.Language
