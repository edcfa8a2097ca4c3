import Mathlib.Logic.Function.Basic

set_option autoImplicit false

namespace CpuEmulator.Library.WaitQueue

inductive Outcome (φ : Type) where
  | holds
  | fails
  | ask (next : φ)

-- A condition on shared state that takes several reads to find out. A check that
-- has come to phase may still fail although the condition holds when the state
-- is hopeful: something that it has already read is no longer so.
structure Condition (σ φ : Type) where
  start : φ
  probe : φ → σ → Outcome φ
  holds : σ → Bool
  hopeful : φ → σ → Bool

structure Faithful {σ φ : Type} (c : Condition σ φ) : Prop where
  start : ∀ shared, c.hopeful c.start shared = false
  asked : ∀ phase next shared, c.probe phase shared = .ask next → c.hopeful next shared = true → c.hopeful phase shared = true
  failed : ∀ phase shared, c.probe phase shared = .fails → c.holds shared = true → c.hopeful phase shared = true

inductive Place (φ : Type) where
  | outside
  | quick (phase : φ)
  | prepare
  | check (phase : φ)
  | sleep
  | passed
  | interrupted

-- interruptible is the state that a task sets before it looks at the condition a
-- last time and that schedule blocks it in.
structure Waiter (φ : Type) where
  place : Place φ
  queued : Bool
  interruptible : Bool
  signalled : Bool
  refused : Bool

def idle {φ : Type} : Waiter φ := ⟨.outside, false, false, false, false⟩

structure State (σ ι ω φ : Type) where
  shared : σ
  owes : ι → Bool
  waiters : ω → Waiter φ

section Steps

variable {σ ι ω φ : Type} (c : Condition σ φ)

-- wait_event_interruptible, one access to shared memory at a time.
def Waiter.advance (shared : σ) (waiter : Waiter φ) : Waiter φ :=
  match waiter.place with
  | .outside | .passed | .interrupted => waiter
  | .quick phase =>
      match c.probe phase shared with
      | .holds => { waiter with place := .passed }
      | .fails => { waiter with place := .prepare }
      | .ask next => { waiter with place := .quick next }
  | .prepare =>
      if waiter.signalled then { waiter with place := .check c.start, queued := false, refused := true }
      else { waiter with place := .check c.start, queued := true, interruptible := true, refused := false }
  | .check phase =>
      match c.probe phase shared with
      | .holds => { waiter with place := .passed, queued := false, interruptible := false }
      | .fails => if waiter.refused then { waiter with place := .interrupted } else { waiter with place := .sleep }
      | .ask next => { waiter with place := .check next }
  | .sleep => if waiter.interruptible then waiter else { waiter with place := .prepare }

def Waiter.enter (waiter : Waiter φ) : Waiter φ :=
  match waiter.place with
  | .outside => { waiter with place := .quick c.start }
  | _ => waiter

def Waiter.signal (waiter : Waiter φ) : Waiter φ := { waiter with signalled := true, interruptible := false }

def Waiter.wake (waiter : Waiter φ) : Waiter φ :=
  if waiter.queued && waiter.interruptible then { waiter with queued := false, interruptible := false } else waiter

def Waiter.asleep (waiter : Waiter φ) : Prop :=
  match waiter.place with
  | .sleep => waiter.interruptible = true
  | _ => False

-- A store behind which its writer still has to wake the waiters up.
def State.publish [DecidableEq ι] (st : State σ ι ω φ) (writer : ι) (shared : σ) : State σ ι ω φ :=
  { st with shared := shared, owes := Function.update st.owes writer true }

def State.alter (st : State σ ι ω φ) (shared : σ) : State σ ι ω φ := { st with shared := shared }

def State.wakeUp [DecidableEq ι] (st : State σ ι ω φ) (writer : ι) : State σ ι ω φ :=
  { st with owes := Function.update st.owes writer false, waiters := fun any => (st.waiters any).wake }

def State.move [DecidableEq ω] (st : State σ ι ω φ) (who : ω) (waiter : Waiter φ) : State σ ι ω φ :=
  { st with waiters := Function.update st.waiters who waiter }

def State.due (st : State σ ι ω φ) : Prop := ∃ writer, st.owes writer = true

def Place.blocks : Place φ → Bool
  | .check _ | .sleep => true
  | .outside | .quick _ | .prepare | .passed | .interrupted => false

-- What a waiter that is going to block has found to be false, and is so no more,
-- will be announced.
structure WaiterKept (st : State σ ι ω φ) (waiter : Waiter φ) : Prop where
  queued : waiter.interruptible = true → waiter.queued = true
  blocks : waiter.interruptible = true → waiter.place.blocks = true
  refused : waiter.interruptible = true → waiter.refused = false
  checking : ∀ phase, waiter.place = .check phase → waiter.interruptible = true → c.hopeful phase st.shared = true → st.due
  sleeping : waiter.place = .sleep → waiter.interruptible = true → c.holds st.shared = true → st.due

def Kept (st : State σ ι ω φ) : Prop := ∀ who, WaiterKept c st (st.waiters who)

structure Worsens (before after : σ) : Prop where
  holds : c.holds after = true → c.holds before = true
  hopeful : ∀ phase, c.hopeful phase after = true → c.hopeful phase before = true

theorem kept_running (st : State σ ι ω φ) (waiter : Waiter φ) (running : waiter.interruptible = false) : WaiterKept c st waiter := by
  refine ⟨fun blocked => ?_, fun blocked => ?_, fun blocked => ?_, fun _ _ blocked => ?_, fun _ blocked => ?_⟩
  all_goals
    rw [running] at blocked
    cases blocked

theorem publish_kept [DecidableEq ι] (st : State σ ι ω φ) (writer : ι) (shared : σ) (kept : Kept c st) :
    Kept c (st.publish writer shared) := by
  intro who
  have due : (st.publish writer shared).due := by
    refine ⟨writer, ?_⟩
    rw [State.publish]
    exact Function.update_self _ _ _
  exact ⟨(kept who).queued, (kept who).blocks, (kept who).refused, fun _ _ _ _ => due, fun _ _ _ => due⟩

theorem alter_kept (st : State σ ι ω φ) (shared : σ) (kept : Kept c st)
    (quiet : Worsens c st.shared shared ∨ ∀ who, (st.waiters who).interruptible = false) : Kept c (st.alter shared) := by
  intro who
  rcases quiet with worse | running
  · refine ⟨(kept who).queued, (kept who).blocks, (kept who).refused, fun phase here blocked hope => ?_, fun here blocked holds => ?_⟩
    · exact (kept who).checking phase here blocked (worse.hopeful phase hope)
    · exact (kept who).sleeping here blocked (worse.holds holds)
  · exact kept_running c _ _ (running who)

theorem wake_runs (waiter : Waiter φ) (queued : waiter.interruptible = true → waiter.queued = true) :
    waiter.wake.interruptible = false := by
  rw [Waiter.wake]
  cases blocked : waiter.interruptible with
  | false =>
      rw [Bool.and_false, if_neg Bool.false_ne_true]
      exact blocked
  | true =>
      rw [queued blocked, Bool.and_self, if_pos rfl]

theorem wake_up_runs [DecidableEq ι] (st : State σ ι ω φ) (writer : ι) (kept : Kept c st) (who : ω) :
    ((st.wakeUp writer).waiters who).interruptible = false :=
  wake_runs (st.waiters who) (kept who).queued

theorem wake_up_kept [DecidableEq ι] (st : State σ ι ω φ) (writer : ι) (kept : Kept c st) : Kept c (st.wakeUp writer) :=
  fun who => kept_running c _ _ (wake_up_runs c st writer kept who)

theorem move_kept [DecidableEq ω] (st : State σ ι ω φ) (who : ω) (waiter : Waiter φ) (kept : Kept c st)
    (moved : WaiterKept c st waiter) : Kept c (st.move who waiter) := by
  have same (other : Waiter φ) (holds : WaiterKept c st other) : WaiterKept c (st.move who waiter) other :=
    ⟨holds.queued, holds.blocks, holds.refused, holds.checking, holds.sleeping⟩
  intro any
  rw [State.move]
  dsimp only
  by_cases mine : any = who
  · rw [mine, Function.update_self]
    exact same waiter moved
  · rw [Function.update_of_ne mine]
    exact same _ (kept any)

theorem signal_kept (st : State σ ι ω φ) (waiter : Waiter φ) : WaiterKept c st waiter.signal := kept_running c st _ rfl

theorem unblocked_runs (st : State σ ι ω φ) (waiter : Waiter φ) (kept : WaiterKept c st waiter) (free : waiter.place.blocks = false) :
    waiter.interruptible = false := by
  cases blocked : waiter.interruptible with
  | false => rfl
  | true =>
      have stays := kept.blocks blocked
      rw [free] at stays
      cases stays

theorem enter_kept (st : State σ ι ω φ) (waiter : Waiter φ) (kept : WaiterKept c st waiter) : WaiterKept c st (waiter.enter c) := by
  rw [Waiter.enter]
  split
  · rename_i outside
    have running := unblocked_runs c st waiter kept (by rw [outside]; rfl)
    exact kept_running c st _ running
  · exact kept

theorem advance_kept (faithful : Faithful c) (st : State σ ι ω φ) (waiter : Waiter φ) (kept : WaiterKept c st waiter) :
    WaiterKept c st (waiter.advance c st.shared) := by
  have free := unblocked_runs c st waiter kept
  rw [Waiter.advance]
  cases place : waiter.place with
  | outside | passed | interrupted => exact kept
  | quick phase =>
      have running := free (by rw [place]; rfl)
      dsimp only
      split <;> exact kept_running c st _ running
  | prepare =>
      have running := free (by rw [place]; rfl)
      dsimp only
      split
      · exact kept_running c st _ running
      · refine ⟨fun _ => rfl, fun _ => rfl, fun _ => rfl, fun phase here _ hope => ?_, fun here => ?_⟩
        · cases here
          rw [faithful.start] at hope
          cases hope
        · cases here
  | check phase =>
      dsimp only
      cases probed : c.probe phase st.shared with
      | holds => exact kept_running c st _ rfl
      | fails =>
          dsimp only
          split
          · rename_i refused
            cases blocked : waiter.interruptible with
            | false => exact kept_running c st _ rfl
            | true =>
                rw [kept.refused blocked] at refused
                cases refused
          · refine ⟨kept.queued, fun _ => rfl, kept.refused, fun other here => ?_, fun _ blocked holds => ?_⟩
            · cases here
            · exact kept.checking phase place blocked (faithful.failed phase st.shared probed holds)
      | ask next =>
          refine ⟨kept.queued, fun _ => rfl, kept.refused, fun other here blocked hope => ?_, fun here => ?_⟩
          · cases here
            exact kept.checking phase place blocked (faithful.asked phase next st.shared probed hope)
          · cases here
  | sleep =>
      dsimp only
      cases blocked : waiter.interruptible with
      | true => exact kept
      | false => exact kept_running c st _ rfl

theorem asleep_iff (waiter : Waiter φ) : waiter.asleep ↔ waiter.place = .sleep ∧ waiter.interruptible = true := by
  rw [Waiter.asleep]
  cases waiter.place with
  | sleep => exact (and_iff_right rfl).symm
  | outside | quick | prepare | check | passed | interrupted => exact iff_of_false id (fun both => by cases both.1)

theorem asleep_due (st : State σ ι ω φ) (kept : Kept c st) (who : ω) (asleep : (st.waiters who).asleep)
    (holds : c.holds st.shared = true) : st.due := by
  obtain ⟨here, blocked⟩ := (asleep_iff _).mp asleep
  exact (kept who).sleeping here blocked holds

structure Grounds (relies : φ → σ → Prop) : Prop where
  start : ∀ shared, relies c.start shared
  asked : ∀ phase next shared, c.probe phase shared = .ask next → relies phase shared → relies next shared
  passed : ∀ phase shared, c.probe phase shared = .holds → relies phase shared → c.holds shared = true

def Place.checking : Place φ → Option φ
  | .quick phase | .check phase => some phase
  | .outside | .prepare | .sleep | .passed | .interrupted => none

def Grounded (relies : φ → σ → Prop) (shared : σ) (waiter : Waiter φ) : Prop :=
  ∀ phase, waiter.place.checking = some phase → relies phase shared

variable (relies : φ → σ → Prop)

theorem advance_grounded (grounds : Grounds c relies) (shared : σ) (waiter : Waiter φ) (grounded : Grounded relies shared waiter) :
    Grounded relies shared (waiter.advance c shared) := by
  rw [Waiter.advance]
  cases place : waiter.place with
  | outside | passed | interrupted => exact grounded
  | quick phase =>
      have held := grounded phase (by rw [place]; rfl)
      dsimp only
      cases probed : c.probe phase shared with
      | holds | fails => exact fun other here => by cases here
      | ask next =>
          intro other here
          cases here
          exact grounds.asked phase next shared probed held
  | prepare =>
      dsimp only
      split
      all_goals
        intro other here
        cases here
        exact grounds.start shared
  | check phase =>
      have held := grounded phase (by rw [place]; rfl)
      dsimp only
      cases probed : c.probe phase shared with
      | holds => exact fun other here => by cases here
      | fails =>
          dsimp only
          split <;> exact fun other here => by cases here
      | ask next =>
          intro other here
          cases here
          exact grounds.asked phase next shared probed held
  | sleep =>
      dsimp only
      split
      · exact grounded
      · exact fun other here => by cases here

theorem enter_grounded (grounds : Grounds c relies) (shared : σ) (waiter : Waiter φ) (grounded : Grounded relies shared waiter) :
    Grounded relies shared (waiter.enter c) := by
  rw [Waiter.enter]
  split
  · intro other here
    cases here
    exact grounds.start shared
  · exact grounded

theorem wake_grounded (shared : σ) (waiter : Waiter φ) (grounded : Grounded relies shared waiter) : Grounded relies shared waiter.wake := by
  rw [Waiter.wake]
  split <;> exact grounded

-- Nobody gets past the condition at an instant at which it does not hold.
theorem pass_holds (grounds : Grounds c relies) (shared : σ) (waiter : Waiter φ) (grounded : Grounded relies shared waiter)
    (before : waiter.place ≠ .passed) (passed : (waiter.advance c shared).place = .passed) : c.holds shared = true := by
  rw [Waiter.advance] at passed
  cases place : waiter.place with
  | outside | interrupted =>
      rw [place] at passed
      dsimp only at passed
      rw [place] at passed
      cases passed
  | passed => exact absurd place before
  | quick phase | check phase =>
      have held := grounded phase (by rw [place]; rfl)
      rw [place] at passed
      dsimp only at passed
      cases probed : c.probe phase shared with
      | holds => exact grounds.passed phase shared probed held
      | fails =>
          rw [probed] at passed
          dsimp only at passed
          first
          | cases passed
          | split at passed <;> cases passed
      | ask next =>
          rw [probed] at passed
          cases passed
  | prepare =>
      rw [place] at passed
      dsimp only at passed
      split at passed <;> cases passed
  | sleep =>
      rw [place] at passed
      dsimp only at passed
      split at passed
      · exact absurd passed before
      · cases passed

end Steps

end CpuEmulator.Library.WaitQueue
