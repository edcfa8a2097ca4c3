import Mathlib.Data.List.Infix

set_option autoImplicit false

namespace CpuEmulator.Library

theorem get_snoc {α : Type} (items : List α) (last item : α) (i : Nat) :
    (items ++ [last])[i]? = some item ↔ items[i]? = some item ∨ i = items.length ∧ last = item := by
  by_cases old : i < items.length
  · rw [List.getElem?_append_left old]
    exact ⟨Or.inl, fun either => either.resolve_right fun new => absurd new.1 (Nat.ne_of_lt old)⟩
  · rw [List.getElem?_append_right (Nat.not_lt.mp old), List.getElem?_eq_none (Nat.not_lt.mp old)]
    by_cases new : i = items.length
    · rw [new, Nat.sub_self, List.getElem?_cons_zero, Option.some.injEq]
      exact ⟨fun same => Or.inr ⟨rfl, same⟩, fun either => (either.resolve_left (by rintro ⟨⟩)).2⟩
    · rw [List.getElem?_eq_none (by rw [List.length_singleton]; omega)]
      exact ⟨fun found => (by cases found), fun either => absurd (either.resolve_left (by rintro ⟨⟩)).1 new⟩

theorem get_inside {α : Type} (items : List α) (item : α) (i : Nat) (found : items[i]? = some item) : i < items.length :=
  (List.getElem?_eq_some_iff.mp found).1

theorem established_since (holds established destroyed : Nat → Prop) (initial : ¬ holds 0)
    (step : ∀ n, holds (n + 1) ↔ established n ∨ holds n ∧ ¬ destroyed n) (n : Nat) :
    holds n ↔ ∃ j, j < n ∧ established j ∧ ∀ k, j < k → k < n → ¬ destroyed k := by
  induction n with
  | zero => exact iff_of_false initial (fun ⟨_, below, _⟩ => absurd below (Nat.not_lt_zero _))
  | succ n ih =>
      rw [step, ih]
      constructor
      · rintro (now | ⟨⟨j, below, established, kept⟩, survived⟩)
        · exact ⟨n, Nat.lt_succ_self n, now, fun k after before => absurd before (Nat.not_lt.mpr after)⟩
        · refine ⟨j, Nat.lt_succ_of_lt below, established, fun k after before => ?_⟩
          rcases Nat.lt_or_eq_of_le (Nat.le_of_lt_succ before) with earlier | rfl
          · exact kept k after earlier
          · exact survived
      · rintro ⟨j, below, established, kept⟩
        rcases Nat.lt_or_eq_of_le (Nat.le_of_lt_succ below) with earlier | rfl
        · exact Or.inr ⟨⟨j, earlier, established, fun k after before => kept k after (Nat.lt_succ_of_lt before)⟩,
            kept n earlier (Nat.lt_succ_self n)⟩
        · exact Or.inl established

namespace Events

variable {σ ε ω : Type} (step : σ → ε → Option σ)

def run (start : σ) (events : List ε) : Option σ := events.foldlM step start

def Along (admitted : σ → ε → Prop) : σ → List ε → Prop
  | _, [] => True
  | state, event :: rest =>
      admitted state event ∧ ∀ next, step state event = some next → Along admitted next rest

def collect (output : σ → ε → Option ω) : σ → List ε → List ω
  | _, [] => []
  | state, event :: rest =>
      (output state event).toList ++ (step state event).elim [] (fun next => collect output next rest)

@[simp] theorem run_nil (start : σ) : run step start [] = some start := rfl

theorem run_cons (start : σ) (event : ε) (rest : List ε) :
    run step start (event :: rest) = (step start event).bind (fun next => run step next rest) := rfl

theorem run_append (start : σ) (first second : List ε) :
    run step start (first ++ second) = (run step start first).bind (fun next => run step next second) :=
  List.foldlM_append

theorem run_snoc (start : σ) (events : List ε) (event : ε) :
    run step start (events ++ [event]) = (run step start events).bind (fun next => step next event) := by
  rw [run_append]
  congr 1
  funext next
  rw [run_cons]
  cases step next event <;> rfl

theorem along_append (admitted : σ → ε → Prop) (start : σ) (first second : List ε) :
    Along step admitted start (first ++ second) ↔
      Along step admitted start first ∧
        ∀ next, run step start first = some next → Along step admitted next second := by
  induction first generalizing start with
  | nil => simp [Along]
  | cons event rest ih =>
      rw [List.cons_append, Along, Along, run_cons]
      cases taken : step start event with
      | none => simp
      | some next => simp [ih next, and_assoc]

theorem along_prefix (admitted : σ → ε → Prop) (start : σ) (first events : List ε) (isPrefix : first <+: events)
    (along : Along step admitted start events) : Along step admitted start first := by
  obtain ⟨rest, rfl⟩ := isPrefix
  exact ((along_append step admitted start first rest).mp along).1

theorem along_trivial (start : σ) (events : List ε) : Along step (fun _ _ => True) start events := by
  induction events generalizing start with
  | nil => trivial
  | cons event rest ih => exact ⟨trivial, fun next _ => ih next⟩

theorem collect_append (output : σ → ε → Option ω) (start : σ) (first second : List ε) :
    collect step output start (first ++ second) =
      collect step output start first ++ (run step start first).elim [] (fun next => collect step output next second) := by
  induction first generalizing start with
  | nil => rfl
  | cons event rest ih =>
      rw [List.cons_append, collect, collect, run_cons, List.append_assoc]
      cases step start event with
      | none => rfl
      | some next => exact congrArg _ (ih next)

theorem collect_snoc (output : σ → ε → Option ω) (start state : σ) (events : List ε) (event : ε)
    (ran : run step start events = some state) :
    collect step output start (events ++ [event]) = collect step output start events ++ (output state event).toList := by
  rw [collect_append, ran, Option.elim_some, collect]
  cases step state event <;> exact congrArg _ (List.append_nil _)

-- Step lemma to run lemma, for what relates a state to the events that led to it.
theorem history_induction (admitted : σ → ε → Prop) (start : σ) (inv : List ε → σ → Prop) (initial : inv [] start)
    (preserved : ∀ soFar state event next, run step start soFar = some state → inv soFar state → admitted state event →
      step state event = some next → inv (soFar ++ [event]) next)
    (events : List ε) (along : Along step admitted start events) (final : σ) (ran : run step start events = some final) :
    inv events final := by
  induction events using List.reverseRecOn generalizing final with
  | nil =>
      obtain rfl := Option.some.inj ran
      exact initial
  | append_singleton soFar event ih =>
      rw [run_snoc] at ran
      obtain ⟨state, before, taken⟩ := Option.bind_eq_some_iff.mp ran
      obtain ⟨earlier, last⟩ := (along_append step admitted start soFar [event]).mp along
      exact preserved soFar state event final before (ih earlier state before) (last state before).1 taken

-- Step lemma to run lemma, for steps that admitted events keep from failing.
theorem run_total (admitted : σ → ε → Prop) (inv : σ → Prop)
    (preserved : ∀ state event, inv state → admitted state event → ∃ next, step state event = some next ∧ inv next)
    (start : σ) (events : List ε) (initial : inv start) (along : Along step admitted start events) :
    ∃ final, run step start events = some final ∧ inv final := by
  induction events generalizing start with
  | nil => exact ⟨start, rfl, initial⟩
  | cons event rest ih =>
      obtain ⟨here, later⟩ := along
      obtain ⟨next, taken, kept⟩ := preserved start event initial here
      rw [run_cons, taken]
      exact ih next kept (later next taken)

theorem along_of_reached (admitted : σ → ε → Prop) (inv : σ → Prop)
    (forced : ∀ state event next, inv state → step state event = some next → inv next → admitted state event)
    (start : σ) (events : List ε)
    (reached : ∀ soFar, soFar <+: events → ∃ state, run step start soFar = some state ∧ inv state) :
    Along step admitted start events := by
  induction events generalizing start with
  | nil => trivial
  | cons event rest ih =>
      have initial : inv start := by
        obtain ⟨state, ran, good⟩ := reached [] List.nil_prefix
        rw [run_nil, Option.some.injEq] at ran
        rwa [ran]
      obtain ⟨next, taken, kept⟩ := reached [event] (List.prefix_append [event] rest)
      have single : step start event = some next := by
        rw [run_cons] at taken
        cases stepped : step start event with
        | none =>
            rw [stepped] at taken
            cases taken
        | some mid =>
            rw [stepped] at taken
            exact taken
      refine ⟨forced start event next initial single kept, fun other same => ?_⟩
      obtain rfl : next = other := Option.some.inj (single.symm.trans same)
      apply ih
      intro soFar isPrefix
      obtain ⟨state, ran, good⟩ := reached (event :: soFar) (List.cons_prefix_cons.mpr ⟨rfl, isPrefix⟩)
      rw [run_cons, single] at ran
      exact ⟨state, ran, good⟩

theorem along_congr (first second : σ → ε → Prop) (inv : σ → Prop)
    (agree : ∀ state event, inv state → (first state event ↔ second state event))
    (preserved : ∀ state event next, inv state → second state event → step state event = some next → inv next)
    (start : σ) (events : List ε) (initial : inv start) : Along step first start events ↔ Along step second start events := by
  induction events generalizing start with
  | nil => exact Iff.rfl
  | cons event rest ih =>
      rw [Along, Along, agree start event initial]
      refine and_congr_right fun here => forall_congr' fun next => imp_congr_right fun stepped => ?_
      exact ih next (preserved start event next initial here stepped)

end Events

end CpuEmulator.Library
