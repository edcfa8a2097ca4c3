set_option autoImplicit false

namespace CpuEmulator.Library

inductive Progress (σ ρ : Type) where
  | running (state : σ)
  | stopped (result : ρ)

namespace Progress

variable {σ ρ τ π : Type}

def bind : Progress σ ρ → (σ → Progress σ ρ) → Progress σ ρ
  | running state, f => f state
  | stopped result, _ => stopped result

def iterate (step : Nat → σ → Progress σ ρ) (start : Progress σ ρ) : Nat → Progress σ ρ
  | 0 => start
  | k + 1 => (iterate step start k).bind (step k)

-- Lifts a relation on running states and one on results to whole machines.
inductive Related (live : σ → τ → Prop) (final : ρ → π → Prop) : Progress σ ρ → Progress τ π → Prop where
  | running {s : σ} {t : τ} (holds : live s t) : Related live final (running s) (running t)
  | stopped {r : ρ} {p : π} (holds : final r p) : Related live final (stopped r) (stopped p)

theorem related_running (live : σ → τ → Prop) (final : ρ → π → Prop) (concrete : Progress σ ρ) (t : τ)
    (related : Related live final concrete (running t)) : ∃ s, concrete = running s ∧ live s t := by
  cases related with
  | running holds => exact ⟨_, rfl, holds⟩

theorem related_compose (live : σ → τ → Prop) (final : ρ → π → Prop) {υ ν : Type} (below : τ → υ → Prop) (ended : π → ν → Prop)
    (whole : σ → υ → Prop) (finished : ρ → ν → Prop) (concrete : Progress σ ρ) (middle : Progress τ π) (abstract : Progress υ ν)
    (first : Related live final concrete middle) (second : Related below ended middle abstract)
    (lives : ∀ s t u, live s t → below t u → whole s u) (ends : ∀ r p q, final r p → ended p q → finished r q) :
    Related whole finished concrete abstract := by
  cases first with
  | running one =>
      cases second with
      | running two => exact .running (lives _ _ _ one two)
  | stopped one =>
      cases second with
      | stopped two => exact .stopped (ends _ _ _ one two)

theorem iterate_from_running (step : Nat → σ → Progress σ ρ) (start : Progress σ ρ) (k : Nat) (state : σ)
    (current : iterate step start k = running state) : iterate step start (k + 1) = step k state := by
  rw [iterate, current, bind]

theorem iterate_add (step : Nat → σ → Progress σ ρ) (start : Progress σ ρ) (j k : Nat) :
    iterate step start (j + k) = iterate (fun i => step (j + i)) (iterate step start j) k := by
  induction k with
  | zero => rfl
  | succ k ih => rw [← Nat.add_assoc, iterate, ih, iterate]

theorem iterate_running_before (step : Nat → σ → Progress σ ρ) (start : Progress σ ρ) (k : Nat) (state : σ)
    (current : iterate step start (k + 1) = running state) :
    ∃ before, iterate step start k = running before ∧ step k before = running state := by
  rw [iterate] at current
  cases reached : iterate step start k with
  | stopped result =>
      rw [reached] at current
      cases current
  | running before =>
      rw [reached] at current
      exact ⟨before, rfl, current⟩

theorem iterate_stays (step : Nat → σ → Progress σ ρ) (start : Progress σ ρ) (j k : Nat) (result : ρ) (reached : j ≤ k)
    (ended : iterate step start j = stopped result) : iterate step start k = stopped result := by
  induction reached with
  | refl => exact ended
  | step _ ih => rw [iterate, ih, bind]

theorem iterate_stopped_by (step : Nat → σ → Progress σ ρ) (start : Progress σ ρ) (k : Nat) (result : ρ)
    (ended : iterate step start k = stopped result) :
    start = stopped result ∨ ∃ j state, j < k ∧ iterate step start j = running state ∧ step j state = stopped result := by
  induction k with
  | zero => exact Or.inl ended
  | succ k ih =>
      cases before : iterate step start k with
      | stopped earlier =>
          have same := iterate_stays step start k (k + 1) earlier (Nat.le_succ k) before
          rw [ended] at same
          rw [← Progress.stopped.inj same] at before
          obtain unstarted | ⟨j, state, below, reached, stops⟩ := ih before
          · exact Or.inl unstarted
          · exact Or.inr ⟨j, state, Nat.lt_succ_of_lt below, reached, stops⟩
      | running state =>
          rw [iterate_from_running step start k state before] at ended
          exact Or.inr ⟨k, state, Nat.lt_succ_self k, before, ended⟩

theorem iterate_descends (step : Nat → σ → Progress σ ρ) (start : σ) (rank : σ → Nat) (inv : σ → Prop) (initial : inv start)
    (descends : ∀ k s t, inv s → step k s = running t → rank t < rank s ∧ inv t) (k : Nat) (state : σ)
    (current : iterate step (running start) k = running state) : inv state ∧ rank state + k ≤ rank start := by
  induction k generalizing state with
  | zero =>
      obtain rfl := Progress.running.inj current
      exact ⟨initial, Nat.le_refl _⟩
  | succ k ih =>
      obtain ⟨before, reached, steps⟩ := iterate_running_before step (running start) k state current
      obtain ⟨holds, bound⟩ := ih before reached
      obtain ⟨lower, kept⟩ := descends k before state holds steps
      exact ⟨kept, by omega⟩

theorem related_and (live : σ → τ → Prop) (final : ρ → π → Prop) (inv : τ → Prop) (concrete : Progress σ ρ) (abstract : Progress τ π)
    (related : Related live final concrete abstract) (holds : ∀ t, abstract = running t → inv t) :
    Related (fun s t => live s t ∧ inv t) final concrete abstract := by
  cases related with
  | running lives => exact .running ⟨lives, holds _ rfl⟩
  | stopped ends => exact .stopped ends

-- The abstract machine may be given an invariant that its own steps keep; the
-- simulation then only has to hold on states that satisfy it.
theorem iterate_related (live : σ → τ → Prop) (final : ρ → π → Prop) (inv : τ → Prop)
    (step : Nat → σ → Progress σ ρ) (abstract : Nat → τ → Progress τ π)
    (start : Progress σ ρ) (abstractStart : Progress τ π)
    (initial : Related live final start abstractStart)
    (initialInv : ∀ t, abstractStart = running t → inv t)
    (preserved : ∀ k t t', inv t → abstract k t = running t' → inv t')
    (simulated : ∀ k s t, live s t → inv t → Related live final (step k s) (abstract k t)) (k : Nat) :
    Related live final (iterate step start k) (iterate abstract abstractStart k) ∧
      ∀ t, iterate abstract abstractStart k = running t → inv t := by
  induction k with
  | zero => exact ⟨initial, initialInv⟩
  | succ k ih =>
      obtain ⟨related, invariant⟩ := ih
      rw [iterate, iterate]
      generalize iterate step start k = concrete at related ⊢
      generalize iterate abstract abstractStart k = reference at related invariant ⊢
      cases related with
      | running holds =>
          have reached := invariant _ rfl
          exact ⟨simulated k _ _ holds reached, fun t' ran => preserved k _ t' reached ran⟩
      | stopped holds => exact ⟨.stopped holds, fun t' ran => by cases ran⟩

section Assertions

variable (live : σ → Prop) (final : ρ → Prop)

def Meets : Progress σ ρ → Prop
  | running state => live state
  | stopped result => final result

theorem iterate_meets (step : Nat → σ → Progress σ ρ) (start : Progress σ ρ) (initial : Meets live final start)
    (keeps : ∀ k state, live state → Meets live final (step k state)) (k : Nat) :
    Meets live final (iterate step start k) := by
  induction k with
  | zero => exact initial
  | succ k ih =>
      rw [iterate]
      cases reached : iterate step start k with
      | running state =>
          rw [reached] at ih
          exact keeps k state ih
      | stopped result =>
          rw [reached] at ih
          exact ih

end Assertions

section Logs

variable {ω : Type}

-- What the steps of a machine leave behind when each adds what seen tells of it.
def log (seen : Nat → τ → Progress τ π → List ω) (step : Nat → τ → Progress τ π) (start : Progress τ π) : Nat → List ω
  | 0 => []
  | k + 1 =>
      log seen step start k ++
        match iterate step start k with
        | running t => seen k t (step k t)
        | stopped _ => []

theorem related_log (live : σ → τ → Prop) (final : ρ → π → Prop) (step : Nat → σ → Progress σ ρ) (abstract : Nat → τ → Progress τ π)
    (start : Progress σ ρ) (abstractStart : Progress τ π) (out : Progress σ ρ → List ω) (seen : Nat → τ → Progress τ π → List ω)
    (related : ∀ k, Related live final (iterate step start k) (iterate abstract abstractStart k))
    (adds : ∀ k s t, live s t → out (step k s) = out (running s) ++ seen k t (abstract k t)) (k : Nat) :
    out (iterate step start k) = out start ++ log seen abstract abstractStart k := by
  induction k with
  | zero => exact (List.append_nil _).symm
  | succ k ih =>
      have together := related k
      rw [log, ← List.append_assoc, ← ih, iterate]
      generalize iterate step start k = concrete at together ⊢
      generalize iterate abstract abstractStart k = reference at together ⊢
      cases together with
      | running holds => exact adds k _ _ holds
      | stopped _ => exact (List.append_nil _).symm

end Logs

section Trails

variable {ω : Type}

def trail (look : Nat → τ → Progress τ π → ω → ω) (step : Nat → τ → Progress τ π) (start : Progress τ π) (first : ω) : Nat → ω
  | 0 => first
  | k + 1 =>
      match iterate step start k with
      | running t => look k t (step k t) (trail look step start first k)
      | stopped _ => trail look step start first k

theorem related_trail (live : σ → τ → Prop) (final : ρ → π → Prop) (step : Nat → σ → Progress σ ρ) (abstract : Nat → τ → Progress τ π)
    (start : Progress σ ρ) (abstractStart : Progress τ π) (out : Progress σ ρ → ω) (look : Nat → τ → Progress τ π → ω → ω)
    (related : ∀ k, Related live final (iterate step start k) (iterate abstract abstractStart k))
    (shows : ∀ k s t, live s t → Related live final (step k s) (abstract k t) →
      out (step k s) = look k t (abstract k t) (out (running s))) (k : Nat) :
    out (iterate step start k) = trail look abstract abstractStart (out start) k := by
  induction k with
  | zero => rfl
  | succ k ih =>
      have together := related k
      have after := related (k + 1)
      rw [trail, ← ih]
      rw [iterate, iterate] at after
      rw [iterate]
      generalize iterate step start k = concrete at together after ⊢
      generalize iterate abstract abstractStart k = reference at together after ⊢
      cases together with
      | running holds => exact shows k _ _ holds after
      | stopped _ => rfl

end Trails

end Progress

end CpuEmulator.Library
