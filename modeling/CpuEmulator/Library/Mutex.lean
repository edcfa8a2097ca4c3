import CpuEmulator.Library.Events
import Mathlib.Logic.Function.Basic
import Mathlib.Logic.Relation

set_option autoImplicit false

namespace CpuEmulator.Library.Mutex

open Relation

-- Calls on shared data. enter is what a call does before it asks for the lock: it
-- may return at once. turn is what the holder does without a break, and none an
-- access that leads nowhere.
structure Code (δ κ τ ρ : Type) where
  enter : κ → τ ⊕ ρ
  turn : δ → τ → Option (δ × (τ ⊕ ρ))

inductive Place (κ τ ρ : Type) where
  | outside
  | waiting (call : κ) (task : τ)
  | inside (call : κ) (task : τ)
  | leaving (call : κ) (result : ρ)

def Place.holds {κ τ ρ : Type} : Place κ τ ρ → Bool
  | .inside _ _ | .leaving _ _ => true
  | .outside | .waiting _ _ => false

structure Done (ω κ ρ : Type) where
  who : ω
  call : κ
  result : ρ

-- finished holds the calls that have come to their end, those under the lock in
-- the order in which they gave it back.
structure State (ω δ κ τ ρ : Type) where
  data : δ
  holder : Option ω
  place : ω → Place κ τ ρ
  finished : List (Done ω κ ρ)

inductive Move (ω κ : Type) where
  | call (who : ω) (call : κ)
  | lock (who : ω)
  | turn (who : ω)
  | unlock (who : ω)

def Move.who {ω κ : Type} : Move ω κ → ω
  | .call who _ | .lock who | .turn who | .unlock who => who

section Steps

variable {ω δ κ τ ρ : Type} (code : Code δ κ τ ρ)

def unlocked (data : δ) : State ω δ κ τ ρ := ⟨data, none, fun _ => .outside, []⟩

def remaining (call : κ) : τ ⊕ ρ → Place κ τ ρ
  | .inl task => .inside call task
  | .inr result => .leaving call result

def step [DecidableEq ω] (st : State ω δ κ τ ρ) : Move ω κ → Option (State ω δ κ τ ρ)
  | .call who call =>
      match st.place who with
      | .outside =>
          match code.enter call with
          | .inl task => some { st with place := Function.update st.place who (.waiting call task) }
          | .inr result => some { st with finished := st.finished ++ [⟨who, call, result⟩] }
      | _ => none
  | .lock who =>
      match st.place who, st.holder with
      | .waiting call task, none =>
          some { st with holder := some who, place := Function.update st.place who (.inside call task) }
      | _, _ => none
  | .turn who =>
      match st.place who with
      | .inside call task =>
          (code.turn st.data task).map fun turned =>
            { st with data := turned.1, place := Function.update st.place who (remaining call turned.2) }
      | _ => none
  | .unlock who =>
      match st.place who with
      | .leaving call result =>
          some ⟨st.data, none, Function.update st.place who .outside, st.finished ++ [⟨who, call, result⟩]⟩
      | _ => none

def Goes (start next : δ × τ) : Prop := code.turn start.1 start.2 = some (next.1, .inl next.2)

inductive Ends : δ × τ → δ → ρ → Prop where
  | last {start : δ × τ} {after : δ} {result : ρ} (turned : code.turn start.1 start.2 = some (after, .inr result)) :
      Ends start after result
  | more {start next : δ × τ} {after : δ} {result : ρ} (goes : Goes code start next) (rest : Ends next after result) :
      Ends start after result

def Performs (data : δ) (call : κ) (after : δ) (result : ρ) : Prop :=
  match code.enter call with
  | .inl task => Ends code (data, task) after result
  | .inr refused => after = data ∧ result = refused

inductive Serial (start : δ) : List (Done ω κ ρ) → δ → Prop where
  | start : Serial start [] start
  | next {earlier : List (Done ω κ ρ)} {data after : δ} (done : Done ω κ ρ) (serial : Serial start earlier data)
      (performs : Performs code data done.call after done.result) : Serial start (earlier ++ [done]) after

theorem ends_unique (start : δ × τ) (after other : δ) (result another : ρ) (ends : Ends code start after result)
    (again : Ends code start other another) : after = other ∧ result = another := by
  induction ends with
  | last turned =>
      cases again with
      | last same =>
          rw [turned] at same
          cases same
          exact ⟨rfl, rfl⟩
      | more goes rest =>
          rw [Goes, turned] at goes
          cases goes
  | more goes rest ih =>
      cases again with
      | last same =>
          rw [Goes, same] at goes
          cases goes
      | @more _ next _ _ along later =>
          rename_i mid _ _
          have same : mid = next := by
            rw [Goes, goes] at along
            cases mid
            cases next
            cases along
            rfl
          rw [← same] at later
          exact ih later

theorem performs_unique (data : δ) (call : κ) (after other : δ) (result another : ρ)
    (performs : Performs code data call after result) (again : Performs code data call other another) :
    after = other ∧ result = another := by
  simp only [Performs] at performs again
  split at again
  · rename_i task entered
    rw [entered] at performs
    exact ends_unique code _ _ _ _ _ performs again
  · rename_i refused entered
    rw [entered] at performs
    exact ⟨performs.1.trans again.1.symm, performs.2.trans again.2.symm⟩

theorem ends_after_works (start mid : δ × τ) (after : δ) (result : ρ) (works : ReflTransGen (Goes code) start mid)
    (ends : Ends code mid after result) : Ends code start after result := by
  induction works using ReflTransGen.head_induction_on with
  | refl => exact ends
  | head goes _ ih => exact .more goes ih

theorem works_stays_on_way (start mid : δ × τ) (after : δ) (result : ρ) (works : ReflTransGen (Goes code) start mid)
    (ends : Ends code start after result) : Ends code mid after result := by
  induction works with
  | refl => exact ends
  | tail _ goes ih =>
      cases ih with
      | last turned =>
          rw [Goes, turned] at goes
          cases goes
      | @more _ next _ _ along rest =>
          rename_i _ here _
          have same : next = here := by
            rw [Goes, along] at goes
            cases next
            cases here
            cases goes
            rfl
          rw [← same]
          exact rest

end Steps

section Runs

variable {ω δ κ τ ρ : Type} (code : Code δ κ τ ρ)

inductive Held (base data : δ) (holder : Option ω) (place : ω → Place κ τ ρ) : Prop where
  | free (nobody : holder = none) (same : data = base) (outside : ∀ who, (place who).holds = false)
  | inside (who : ω) (call : κ) (task entry : τ) (holds : holder = some who) (here : place who = .inside call task)
      (entered : code.enter call = .inl entry) (works : ReflTransGen (Goes code) (base, entry) (data, task))
      (others : ∀ other, other ≠ who → (place other).holds = false)
  | leaving (who : ω) (call : κ) (result : ρ) (entry : τ) (holds : holder = some who) (here : place who = .leaving call result)
      (entered : code.enter call = .inl entry) (ends : Ends code (base, entry) data result)
      (others : ∀ other, other ≠ who → (place other).holds = false)

structure Kept (start base : δ) (st : State ω δ κ τ ρ) : Prop where
  serial : Serial code start st.finished base
  held : Held code base st.data st.holder st.place
  waiting : ∀ who call task, st.place who = .waiting call task → code.enter call = .inl task

theorem unlocked_kept (start : δ) : Kept code start start (unlocked start : State ω δ κ τ ρ) :=
  ⟨.start, .free rfl rfl fun _ => rfl, fun _ _ _ here => by cases here⟩

variable [DecidableEq ω]

theorem waiting_update (place : ω → Place κ τ ρ) (who : ω) (now : Place κ τ ρ)
    (waiting : ∀ who call task, place who = .waiting call task → code.enter call = .inl task)
    (fresh : ∀ call task, now = .waiting call task → code.enter call = .inl task) (any : ω) (call : κ) (task : τ)
    (here : Function.update place who now any = .waiting call task) : code.enter call = .inl task := by
  by_cases same : any = who
  · rw [same, Function.update_self] at here
    exact fresh call task here
  · rw [Function.update_of_ne same] at here
    exact waiting any call task here

theorem holds_update (place : ω → Place κ τ ρ) (who other : ω) (now : Place κ τ ρ) (free : now.holds = false)
    (before : (place other).holds = false) : (Function.update place who now other).holds = false := by
  by_cases same : other = who
  · rw [same, Function.update_self]
    exact free
  · rw [Function.update_of_ne same]
    exact before

theorem held_elsewhere (base data : δ) (holder : Option ω) (place : ω → Place κ τ ρ) (mover : ω) (now : Place κ τ ρ)
    (held : Held code base data holder place) (before : (place mover).holds = false) (after : now.holds = false) :
    Held code base data holder (Function.update place mover now) := by
  have apart (who : ω) (holds : (place who).holds = true) : who ≠ mover := by
    rintro rfl
    rw [before] at holds
    cases holds
  cases held with
  | free nobody same outside => exact .free nobody same fun who => holds_update place mover who now after (outside who)
  | inside who call task entry holds here entered works others =>
      refine .inside who call task entry holds ?_ entered works fun other different =>
        holds_update place mover other now after (others other different)
      rw [Function.update_of_ne (apart who (by rw [here]; rfl))]
      exact here
  | leaving who call result entry holds here entered ends others =>
      refine .leaving who call result entry holds ?_ entered ends fun other different =>
        holds_update place mover other now after (others other different)
      rw [Function.update_of_ne (apart who (by rw [here]; rfl))]
      exact here

theorem held_by (base data : δ) (holder : Option ω) (place : ω → Place κ τ ρ) (who : ω)
    (held : Held code base data holder place) (holds : (place who).holds = true) :
    holder = some who ∧ ∀ other, other ≠ who → (place other).holds = false := by
  cases held with
  | free _ _ outside =>
      rw [outside who] at holds
      cases holds
  | inside owner _ _ _ owned _ _ _ others | leaving owner _ _ _ owned _ _ _ others =>
      by_cases same : who = owner
      · rw [same]
        exact ⟨owned, others⟩
      · rw [others who same] at holds
        cases holds

omit [DecidableEq ω] in
theorem held_free (base data : δ) (holder : Option ω) (place : ω → Place κ τ ρ)
    (held : Held code base data holder place) (nobody : holder = none) : data = base := by
  cases held with
  | free _ same => exact same
  | inside _ _ _ _ holds | leaving _ _ _ _ holds =>
      rw [nobody] at holds
      cases holds

variable (start base : δ) (st next : State ω δ κ τ ρ) (who : ω)

theorem call_kept (call : κ) (kept : Kept code start base st) (taken : step code st (.call who call) = some next) :
    Kept code start base next := by
  rw [step] at taken
  split at taken
  · rename_i outside
    have free : (st.place who).holds = false := by
      rw [outside]
      rfl
    split at taken
    · rename_i task entered
      obtain rfl := Option.some.inj taken
      refine ⟨kept.serial, held_elsewhere code base st.data st.holder st.place who _ kept.held free rfl, ?_⟩
      apply waiting_update code st.place who _ kept.waiting
      intro other fresh same
      cases same
      exact entered
    · rename_i refused entered
      obtain rfl := Option.some.inj taken
      refine ⟨.next _ kept.serial ?_, kept.held, kept.waiting⟩
      rw [Performs, entered]
      exact ⟨rfl, rfl⟩
  · cases taken

theorem lock_kept (kept : Kept code start base st) (taken : step code st (.lock who) = some next) :
    Kept code start base next := by
  rw [step] at taken
  split at taken
  · rename_i call task waiting nobody
    obtain rfl := Option.some.inj taken
    have entered := kept.waiting who call task waiting
    refine ⟨kept.serial, ?_, ?_⟩
    · cases kept.held with
      | free _ same outside =>
          refine .inside who call task task rfl (Function.update_self ..) entered ?_ fun other different => ?_
          · rw [same]
          · dsimp only
            rw [Function.update_of_ne different]
            exact outside other
      | inside _ _ _ _ holds | leaving _ _ _ _ holds =>
          rw [nobody] at holds
          cases holds
    · apply waiting_update code st.place who _ kept.waiting
      intro _ _ same
      cases same
  · cases taken

theorem turn_kept (kept : Kept code start base st) (taken : step code st (.turn who) = some next) :
    Kept code start base next := by
  rw [step] at taken
  split at taken
  · rename_i call task here
    obtain ⟨⟨data, rest⟩, turned, rfl⟩ := Option.map_eq_some_iff.mp taken
    have holding : (st.place who).holds = true := by
      rw [here]
      rfl
    have mine := held_by code base st.data st.holder st.place who kept.held holding
    have others (other : ω) (different : other ≠ who) :
        (Function.update st.place who (remaining call rest) other).holds = false := by
      rw [Function.update_of_ne different]
      exact mine.2 other different
    refine ⟨kept.serial, ?_, ?_⟩
    · cases kept.held with
      | free nobody =>
          rw [mine.1] at nobody
          cases nobody
      | leaving owner _ _ _ owned there =>
          obtain rfl := Option.some.inj (mine.1.symm.trans owned)
          rw [here] at there
          cases there
      | inside owner _ _ entry owned there entered works =>
          obtain rfl := Option.some.inj (mine.1.symm.trans owned)
          rw [here] at there
          cases there
          cases rest with
          | inl later => exact .inside who call later entry mine.1 (Function.update_self ..) entered (works.tail turned) others
          | inr result =>
              exact .leaving who call result entry mine.1 (Function.update_self ..) entered
                (ends_after_works code _ _ _ _ works (.last turned)) others
    · apply waiting_update code st.place who _ kept.waiting
      intro _ _ same
      cases rest <;> cases same
  · cases taken

theorem unlock_kept (kept : Kept code start base st) (taken : step code st (.unlock who) = some next) :
    Kept code start st.data next := by
  rw [step] at taken
  split at taken
  · rename_i call result here
    obtain rfl := Option.some.inj taken
    have holding : (st.place who).holds = true := by
      rw [here]
      rfl
    have mine := held_by code base st.data st.holder st.place who kept.held holding
    refine ⟨?_, ?_, ?_⟩
    · cases kept.held with
      | free nobody =>
          rw [mine.1] at nobody
          cases nobody
      | inside owner _ _ _ owned there =>
          obtain rfl := Option.some.inj (mine.1.symm.trans owned)
          rw [here] at there
          cases there
      | leaving owner _ _ entry owned there entered ends =>
          obtain rfl := Option.some.inj (mine.1.symm.trans owned)
          rw [here] at there
          cases there
          refine .next _ kept.serial ?_
          rw [Performs, entered]
          exact ends
    · refine .free rfl rfl fun other => ?_
      dsimp only
      by_cases same : other = who
      · rw [same, Function.update_self]
        rfl
      · rw [Function.update_of_ne same]
        exact mine.2 other same
    · apply waiting_update code st.place who _ kept.waiting
      intro _ _ same
      cases same
  · cases taken

theorem step_kept (move : Move ω κ) (kept : Kept code start base st) (taken : step code st move = some next) :
    ∃ later, Kept code start later next := by
  cases move with
  | call who call => exact ⟨base, call_kept code start base st next who call kept taken⟩
  | lock who => exact ⟨base, lock_kept code start base st next who kept taken⟩
  | turn who => exact ⟨base, turn_kept code start base st next who kept taken⟩
  | unlock who => exact ⟨st.data, unlock_kept code start base st next who kept taken⟩

theorem run_kept (moves : List (Move ω κ)) (ran : Events.run (step code) (unlocked start) moves = some next) :
    ∃ base, Kept code start base next := by
  apply Events.history_induction (step code) (fun _ _ => True) (unlocked start) (fun _ st => ∃ base, Kept code start base st)
  · exact ⟨start, unlocked_kept code start⟩
  · intro _ st move later _ kept _ taken
    obtain ⟨base, kept⟩ := kept
    exact step_kept code start base st later move kept taken
  · exact Events.along_trivial (step code) (unlocked start) moves
  · exact ran

end Runs

section Release

variable {ω δ κ τ ρ : Type} (code : Code δ κ τ ρ)

def Completes (inv : δ → Prop) : Prop :=
  ∀ data call, inv data → ∃ after result, Performs code data call after result ∧ inv after

theorem serial_inv (inv : δ → Prop) (completes : Completes code inv) (start base : δ) (finished : List (Done ω κ ρ))
    (initial : inv start) (serial : Serial code start finished base) : inv base := by
  induction serial with
  | start => exact initial
  | @next _ data after done _ performs ih =>
      obtain ⟨other, result, again, kept⟩ := completes data done.call ih
      rw [(performs_unique code data done.call after other done.result result performs again).1]
      exact kept

variable [DecidableEq ω]

theorem turn_taken (who : ω) (call : κ) (task : τ) (st : State ω δ κ τ ρ) (data : δ) (rest : τ ⊕ ρ)
    (inside : st.place who = .inside call task) (turned : code.turn st.data task = some (data, rest)) :
    step code st (.turn who) =
      some { st with data := data, place := Function.update st.place who (remaining call rest) } := by
  rw [step, inside]
  dsimp only
  rw [turned, Option.map_some]

theorem leaving_unlocks (who : ω) (call : κ) (result : ρ) (st : State ω δ κ τ ρ) (leaving : st.place who = .leaving call result) :
    ∃ released, Events.run (step code) st [.unlock who] = some released ∧ released.holder = none := by
  rw [Events.run_cons, step, leaving]
  exact ⟨_, rfl, rfl⟩

theorem section_released (who : ω) (call : κ) (here : δ × τ) (after : δ) (result : ρ) (ends : Ends code here after result)
    (st : State ω δ κ τ ρ) (data : st.data = here.1) (inside : st.place who = .inside call here.2) :
    ∃ moves released, (∀ move ∈ moves, move.who = who) ∧ Events.run (step code) st moves = some released ∧
      released.holder = none := by
  induction ends generalizing st with
  | @last _ after result turned =>
      rw [← data] at turned
      obtain ⟨released, ran, free⟩ := leaving_unlocks code who call result
        { st with data := after, place := Function.update st.place who (.leaving call result) } (Function.update_self ..)
      refine ⟨[.turn who, .unlock who], released, ?_, ?_, free⟩
      · intro move
        simp only [List.mem_cons, List.not_mem_nil, or_false]
        rintro (rfl | rfl) <;> rfl
      · rw [Events.run_cons, turn_taken code who call _ st _ _ inside turned, Option.bind_some]
        exact ran
  | @more _ next _ _ goes rest ih =>
      rw [Goes, ← data] at goes
      obtain ⟨moves, released, own, ran, free⟩ := ih
        { st with data := next.1, place := Function.update st.place who (.inside call next.2) } rfl (Function.update_self ..)
      refine ⟨.turn who :: moves, released, ?_, ?_, free⟩
      · intro move found
        rcases List.mem_cons.mp found with rfl | later
        · rfl
        · exact own move later
      · rw [Events.run_cons, turn_taken code who call _ st _ _ inside goes, Option.bind_some]
        exact ran

theorem holder_releases (inv : δ → Prop) (completes : Completes code inv) (start base : δ) (initial : inv start)
    (st : State ω δ κ τ ρ) (kept : Kept code start base st) (who : ω) (holds : st.holder = some who) :
    ∃ moves released, (∀ move ∈ moves, move.who = who) ∧ Events.run (step code) st moves = some released ∧
      released.holder = none := by
  cases kept.held with
  | free nobody =>
      rw [holds] at nobody
      cases nobody
  | leaving owner call result _ owned here =>
      obtain rfl := Option.some.inj (holds.symm.trans owned)
      obtain ⟨released, ran, free⟩ := leaving_unlocks code who call result st here
      refine ⟨[.unlock who], released, ?_, ran, free⟩
      intro move found
      rw [List.mem_singleton.mp found]
      rfl
  | inside owner call task entry owned here entered works =>
      obtain rfl := Option.some.inj (holds.symm.trans owned)
      obtain ⟨after, result, performs, _⟩ :=
        completes base call (serial_inv code inv completes start base st.finished initial kept.serial)
      rw [Performs, entered] at performs
      exact section_released code who call (st.data, task) after result
        (works_stays_on_way code _ _ _ _ works performs) st rfl here

end Release

end CpuEmulator.Library.Mutex
