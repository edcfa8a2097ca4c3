import CpuEmulator.Library.Events

set_option autoImplicit false

namespace CpuEmulator.Library

namespace Noninterference

variable {σ ε ω : Type} (step : σ → ε → Option σ) (output : σ → ε → Option ω) (hidden : ε → Bool)
  (admitted : σ → ε → Prop) (same : σ → σ → Prop)

def purge (events : List ε) : List ε := events.filter (fun event => !hidden event)

def observed (state : σ) (event : ε) : Option ω := if hidden event then none else output state event

-- A relation on states that hidden events do not leave and the others follow on
-- both sides with the same output.
structure Unwinding : Prop where
  silent : ∀ state other event next, hidden event = true → admitted state event → same state other →
    step state event = some next → same next other
  followed : ∀ state other event next, hidden event = false → same state other → step state event = some next →
    ∃ after, step other event = some after ∧ same next after
  outputs : ∀ state other event, hidden event = false → same state other → output state event = output other event

theorem purge_unseen (unwinding : Unwinding step output hidden admitted same) (state other : σ) (related : same state other)
    (events : List ε) (along : Events.Along step admitted state events) (final : σ)
    (ran : Events.run step state events = some final) :
    ∃ purged, Events.run step other (purge hidden events) = some purged ∧ same final purged ∧
      Events.collect step (observed output hidden) state events = Events.collect step output other (purge hidden events) := by
  induction events generalizing state other with
  | nil =>
      obtain rfl := Option.some.inj ran
      exact ⟨other, rfl, related, rfl⟩
  | cons event rest ih =>
      obtain ⟨here, later⟩ := along
      rw [Events.run_cons] at ran
      obtain ⟨next, taken, ran⟩ := Option.bind_eq_some_iff.mp ran
      cases secret : hidden event with
      | true =>
          have skipped : purge hidden (event :: rest) = purge hidden rest := by
            rw [purge, List.filter_cons_of_neg (by rw [secret]; decide), purge]
          obtain ⟨purged, reached, kept, seen⟩ :=
            ih next other (unwinding.silent state other event next secret here related taken) (later next taken) ran
          rw [skipped]
          refine ⟨purged, reached, kept, ?_⟩
          rw [Events.collect, observed, if_pos secret, taken]
          exact seen
      | false =>
          have visible : purge hidden (event :: rest) = event :: purge hidden rest := by
            rw [purge, List.filter_cons_of_pos (by rw [secret]; rfl), purge]
          obtain ⟨after, followed, matched⟩ := unwinding.followed state other event next secret related taken
          obtain ⟨purged, reached, kept, seen⟩ := ih next after matched (later next taken) ran
          rw [visible, Events.run_cons, followed]
          refine ⟨purged, reached, kept, ?_⟩
          rw [Events.collect, Events.collect, observed, if_neg (by rw [secret]; decide), taken, followed,
            unwinding.outputs state other event secret related]
          exact congrArg _ seen

end Noninterference

end CpuEmulator.Library
