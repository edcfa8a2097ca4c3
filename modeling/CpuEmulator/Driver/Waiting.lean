import CpuEmulator.Driver.Interrupts
import CpuEmulator.Library.Events
import CpuEmulator.Library.WaitQueue

set_option autoImplicit false

namespace CpuEmulator.Driver

open Library WaitQueue

-- The reads of the condition that cpu_read waits for, in the order of &&.
inductive GateRead where
  | running
  | paused
  | steps
deriving DecidableEq

def gateProbe : GateRead → Atomics → Outcome GateRead
  | .running, atomics => if atomics.cpuRunning = 0 then .fails else .ask .paused
  | .paused, atomics => if atomics.cpuPaused = 0 then .holds else .ask .steps
  | .steps, atomics => if 0 < atomics.stepCount then .holds else .fails

-- A check that has seen the pause asks for a step although the pause may be off
-- by then.
def gateHopeful : GateRead → Atomics → Bool
  | .running, _ | .paused, _ => false
  | .steps, atomics => atomics.cpuPaused == 0

def execWq : Condition Atomics GateRead := ⟨.running, gateProbe, Atomics.gateOpen, gateHopeful⟩

inductive Handler where
  | run
  | pause
  | step
deriving DecidableEq

-- The driver between two accesses to its atomics or its wait queue. opening
-- clients have stored the run switch and not yet the pause switch, spending ones
-- have seen a step press and not yet taken it.
structure Racing (Client : Type) where
  queue : State Atomics Handler Client GateRead
  stepAsleep : Bool
  opening : Client → Bool
  spending : Client → Bool

inductive Move (Client : Type) where
  | runIrq (runSw : Int)
  | pauseIrq (pauseSw : Int)
  | stepIrq
  | stepIncrement (input : Int)
  | wakeUp (handler : Handler)
  | openRun (client : Client) (runSw : Int)
  | openPause (client : Client) (pauseSw : Int)
  | readEnter (client : Client)
  | readAdvance (client : Client)
  | readConsume (client : Client)
  | signal (client : Client)

def atomicDec (value : Int) : Int := if value = -2147483648 then 2147483647 else value - 1

section Moves

variable {Client : Type}

def loadedRacing : Racing Client := ⟨⟨loadedBoard.atomics, fun _ => false, fun _ => idle⟩, false, fun _ => false, fun _ => false⟩

def Racing.publish (st : Racing Client) (handler : Handler) (atomics : Atomics) : Racing Client :=
  { st with queue := st.queue.publish handler atomics }

def Racing.alter (st : Racing Client) (atomics : Atomics) : Racing Client := { st with queue := st.queue.alter atomics }

variable [DecidableEq Client]

def Racing.move (st : Racing Client) (client : Client) (waiter : Waiter GateRead) : Racing Client :=
  { st with queue := st.queue.move client waiter }

-- Each interrupt thread takes up its next interrupt when it is done with the
-- last one. What cannot happen changes nothing.
def racing (st : Racing Client) : Move Client → Racing Client
  | .runIrq runSw =>
      if !st.queue.owes .run && runSw != 0 then st.publish .run { st.queue.shared with cpuRunning := 1 } else st
  | .pauseIrq pauseSw =>
      if st.queue.owes .pause then st
      else if pauseSw ≠ 0 then st.alter { st.queue.shared with cpuPaused := 1 }
      else st.publish .pause { st.queue.shared with cpuPaused := 0 }
  | .stepIrq =>
      if !st.queue.owes .step && st.queue.shared.cpuPaused != 0 then { st with stepAsleep := true } else st
  | .stepIncrement input =>
      if st.stepAsleep then
        let awake := { st with stepAsleep := false }
        if input ≠ 0 then awake.publish .step { st.queue.shared with stepCount := atomicInc st.queue.shared.stepCount } else awake
      else st
  | .wakeUp handler => if st.queue.owes handler then { st with queue := st.queue.wakeUp handler } else st
  | .openRun client runSw =>
      if runSw < 0 then st
      else { st.alter { st.queue.shared with cpuRunning := runSw } with opening := Function.update st.opening client true }
  | .openPause client pauseSw =>
      if st.opening client then
        { st.alter { st.queue.shared with cpuPaused := pauseSw } with opening := Function.update st.opening client false }
      else st
  | .readEnter client => st.move client ((st.queue.waiters client).enter execWq)
  | .readAdvance client => st.move client ((st.queue.waiters client).advance execWq st.queue.shared)
  | .readConsume client =>
      match (st.queue.waiters client).place with
      | .interrupted => st.move client idle
      | .passed =>
          if st.spending client then
            { (st.alter { st.queue.shared with stepCount := atomicDec st.queue.shared.stepCount }).move client idle with
              spending := Function.update st.spending client false }
          else if 0 < st.queue.shared.stepCount then { st with spending := Function.update st.spending client true }
          else st.move client idle
      | .outside | .quick _ | .prepare | .check _ | .sleep => st
  | .signal client => st.move client (st.queue.waiters client).signal

def racingStep (st : Racing Client) (move : Move Client) : Option (Racing Client) := some (racing st move)

def NobodyQueued (st : Racing Client) : Prop := ∀ client, (st.queue.waiters client).queued = false

-- The stores without a wake-up that would have to be followed by one.
def Announced (st : Racing Client) : Move Client → Prop
  | .openRun _ runSw =>
      runSw < 0 ∨ ({ st.queue.shared with cpuRunning := runSw }.gateOpen = true → st.queue.shared.gateOpen = true) ∨ NobodyQueued st
  | .openPause _ pauseSw => pauseSw ≠ 0 ∨ st.queue.shared.cpuPaused = 0 ∨ NobodyQueued st
  | .readConsume _ => st.queue.shared.stepCount ≠ -2147483648
  | .runIrq _ | .pauseIrq _ | .stepIrq | .stepIncrement _ | .wakeUp _ | .readEnter _ | .readAdvance _ | .signal _ => True

theorem gate_open_iff (atomics : Atomics) :
    atomics.gateOpen = true ↔ atomics.cpuRunning ≠ 0 ∧ (atomics.cpuPaused = 0 ∨ 0 < atomics.stepCount) := by
  simp only [Atomics.gateOpen, Bool.and_eq_true, bne_iff_ne, Bool.or_eq_true, beq_iff_eq, decide_eq_true_iff]

theorem exec_wq_faithful : Faithful execWq where
  start _ := rfl
  asked phase next shared asks hope := by
    simp only [execWq, gateProbe] at asks
    cases phase with
    | running =>
        dsimp only at asks
        split at asks <;> cases asks
        cases hope
    | paused =>
        dsimp only at asks
        split at asks
        · cases asks
        · rename_i paused
          cases asks
          exact absurd (beq_iff_eq.mp hope) paused
    | steps =>
        dsimp only at asks
        split at asks <;> cases asks
  failed phase shared fails holds := by
    obtain ⟨running, passable⟩ := (gate_open_iff shared).mp holds
    simp only [execWq, gateProbe] at fails
    cases phase with
    | running =>
        dsimp only at fails
        rw [if_neg running] at fails
        cases fails
    | paused =>
        dsimp only at fails
        split at fails <;> cases fails
    | steps =>
        dsimp only at fails
        split at fails
        · cases fails
        · rename_i none
          exact beq_iff_eq.mpr (passable.resolve_right none)

theorem running_worsens (atomics : Atomics) (runSw : Int)
    (quiet : { atomics with cpuRunning := runSw }.gateOpen = true → atomics.gateOpen = true) :
    Worsens execWq atomics { atomics with cpuRunning := runSw } where
  holds := quiet
  hopeful phase hope := by
    cases phase with
    | running | paused => cases hope
    | steps => exact hope

theorem paused_worsens (atomics : Atomics) (pauseSw : Int) (quiet : pauseSw ≠ 0 ∨ atomics.cpuPaused = 0) :
    Worsens execWq atomics { atomics with cpuPaused := pauseSw } where
  holds opened := by
    obtain ⟨running, passable⟩ := (gate_open_iff _).mp opened
    refine (gate_open_iff atomics).mpr ⟨running, ?_⟩
    rcases quiet with pressed | off
    · exact Or.inr (passable.resolve_left pressed)
    · exact Or.inl off
  hopeful phase hope := by
    cases phase with
    | running | paused => cases hope
    | steps =>
        rcases quiet with pressed | off
        · exact absurd (beq_iff_eq.mp hope) pressed
        · exact beq_iff_eq.mpr off

theorem consumed_worsens (atomics : Atomics) (inside : atomics.stepCount ≠ -2147483648) :
    Worsens execWq atomics { atomics with stepCount := atomicDec atomics.stepCount } where
  holds opened := by
    obtain ⟨running, passable⟩ := (gate_open_iff _).mp opened
    refine (gate_open_iff atomics).mpr ⟨running, passable.imp_right fun left => ?_⟩
    dsimp only [atomicDec] at left
    rw [if_neg inside] at left
    omega
  hopeful phase hope := by
    cases phase with
    | running | paused => cases hope
    | steps => exact hope

omit [DecidableEq Client] in
theorem queued_blocks (st : Racing Client) (kept : Kept execWq st.queue) (none : NobodyQueued st) (client : Client) :
    (st.queue.waiters client).interruptible = false := by
  cases blocked : (st.queue.waiters client).interruptible with
  | false => rfl
  | true =>
      have queued := (kept client).queued blocked
      rw [none client] at queued
      cases queued

omit [DecidableEq Client] in
theorem idle_kept (st : State Atomics Handler Client GateRead) : WaiterKept execWq st idle := kept_running execWq st idle rfl

theorem consume_kept (st : Racing Client) (client : Client) (kept : Kept execWq st.queue)
    (inside : st.queue.shared.stepCount ≠ -2147483648) : Kept execWq (racing st (.readConsume client)).queue := by
  rw [racing]
  split
  · exact move_kept execWq st.queue client idle kept (idle_kept st.queue)
  · split
    · have altered := alter_kept execWq st.queue _ kept (Or.inl (consumed_worsens st.queue.shared inside))
      exact move_kept execWq _ client idle altered (idle_kept _)
    · split
      · exact kept
      · exact move_kept execWq st.queue client idle kept (idle_kept st.queue)
  all_goals exact kept

theorem racing_kept (st : Racing Client) (move : Move Client) (kept : Kept execWq st.queue) (announced : Announced st move) :
    Kept execWq (racing st move).queue := by
  have nobody := queued_blocks st kept
  cases move with
  | runIrq runSw =>
      rw [racing]
      split
      · exact publish_kept execWq st.queue .run _ kept
      · exact kept
  | pauseIrq pauseSw =>
      rw [racing]
      split
      · exact kept
      · split
        · exact alter_kept execWq st.queue _ kept (Or.inl (paused_worsens st.queue.shared 1 (Or.inl (by decide))))
        · exact publish_kept execWq st.queue .pause _ kept
  | stepIrq =>
      rw [racing]
      split <;> exact kept
  | stepIncrement input =>
      rw [racing]
      split
      · dsimp only
        split
        · exact publish_kept execWq st.queue .step _ kept
        · exact kept
      · exact kept
  | wakeUp handler =>
      rw [racing]
      split
      · exact wake_up_kept execWq st.queue handler kept
      · exact kept
  | openRun client runSw =>
      rw [racing]
      split
      · exact kept
      · rename_i sampled
        refine alter_kept execWq st.queue _ kept ?_
        rcases announced.resolve_left sampled with quiet | none
        · exact Or.inl (running_worsens _ runSw quiet)
        · exact Or.inr (nobody none)
  | openPause client pauseSw =>
      rw [racing]
      split
      · refine alter_kept execWq st.queue _ kept ?_
        rcases announced with pressed | off | none
        · exact Or.inl (paused_worsens _ pauseSw (Or.inl pressed))
        · exact Or.inl (paused_worsens _ pauseSw (Or.inr off))
        · exact Or.inr (nobody none)
      · exact kept
  | readEnter client => exact move_kept execWq st.queue client _ kept (enter_kept execWq st.queue _ (kept client))
  | readAdvance client =>
      exact move_kept execWq st.queue client _ kept (advance_kept execWq exec_wq_faithful st.queue _ (kept client))
  | readConsume client => exact consume_kept st client kept announced
  | signal client => exact move_kept execWq st.queue client _ kept (signal_kept execWq st.queue _)

end Moves

structure Awaited {Client : Type} (st : Racing Client) : Prop where
  due : ∀ client, (st.queue.waiters client).asleep → st.queue.shared.gateOpen = true → ∃ handler, st.queue.owes handler = true
  woken : ∀ handler client, ¬ ((st.queue.wakeUp handler).waiters client).asleep

theorem kept_awaited {Client : Type} (st : Racing Client) (kept : Kept execWq st.queue) : Awaited st := by
  refine ⟨fun client asleep opened => asleep_due execWq st.queue kept client asleep opened, fun handler client asleep => ?_⟩
  have runs := wake_up_runs execWq st.queue handler kept client
  rw [((asleep_iff _).mp asleep).2] at runs
  cases runs

-- However the interrupt threads, the readers and the clients that open the
-- device interleave.
theorem no_wake_up_lost {Client : Type} [DecidableEq Client] (moves : List (Move Client))
    (announced : Events.Along racingStep Announced loadedRacing moves) (final : Racing Client)
    (ran : Events.run racingStep loadedRacing moves = some final) : Awaited final := by
  apply kept_awaited
  obtain ⟨same, again, kept⟩ := Events.run_total racingStep Announced (fun st => Kept execWq st.queue)
    (fun st move kept announced => ⟨racing st move, rfl, racing_kept st move kept announced⟩) loadedRacing moves
    (fun client => idle_kept _) announced
  obtain rfl := Option.some.inj (again.symm.trans ran)
  exact kept

def fallsAsleep : List (Move Bool) := [.readEnter true, .readAdvance true, .readAdvance true, .readAdvance true]

-- The run switch goes up while the reader sleeps.
theorem no_wake_up_lost_run_switch :
    ∃ final, Events.run racingStep loadedRacing (fallsAsleep ++ [.runIrq 1]) = some final ∧
      ∃ handler, final.queue.owes handler = true := by
  refine ⟨_, rfl, (no_wake_up_lost (fallsAsleep ++ [.runIrq 1]) ?_ _ rfl).due true rfl (by decide)⟩
  exact ⟨trivial, fun _ _ => ⟨trivial, fun _ _ => ⟨trivial, fun _ _ => ⟨trivial, fun _ _ => ⟨trivial, fun _ _ => trivial⟩⟩⟩⟩⟩

section Unnoticed

variable {Client : Type} [DecidableEq Client] (st : Racing Client) (client : Client) (asleep : (st.queue.waiters client).asleep)

include asleep

theorem moved_asleep (who : Client) (waiter : Waiter GateRead) (same : who = client → waiter = st.queue.waiters client) :
    ((st.queue.move who waiter).waiters client).asleep := by
  rw [State.move]
  dsimp only
  by_cases mine : client = who
  · rw [mine, Function.update_self, same mine.symm]
    exact asleep
  · rw [Function.update_of_ne mine]
    exact asleep

theorem asleep_stays (move : Move Client) (noWake : ∀ handler, move ≠ .wakeUp handler) (noSignal : move ≠ .signal client) :
    ((racing st move).queue.waiters client).asleep := by
  obtain ⟨place, blocked⟩ := (asleep_iff _).mp asleep
  have moved := moved_asleep st client asleep
  cases move with
  | runIrq runSw | stepIrq | openRun other runSw | openPause other pauseSw =>
      rw [racing]
      split <;> exact asleep
  | pauseIrq pauseSw =>
      rw [racing]
      split
      · exact asleep
      · split <;> exact asleep
  | stepIncrement input =>
      rw [racing]
      split
      · dsimp only
        split <;> exact asleep
      · exact asleep
  | wakeUp handler => exact absurd rfl (noWake handler)
  | readEnter other =>
      refine moved other _ fun mine => ?_
      rw [mine, Waiter.enter, place]
  | readAdvance other =>
      refine moved other _ fun mine => ?_
      rw [mine, Waiter.advance, place]
      dsimp only
      rw [if_pos blocked]
  | readConsume other =>
      have apart (there : (st.queue.waiters other).place ≠ .sleep) : other ≠ client := fun mine => there (mine ▸ place)
      rw [racing]
      split
      · rename_i there
        exact moved other idle fun mine => absurd mine (apart (fun same => by rw [there] at same; cases same))
      · rename_i there
        have elsewhere := apart (fun same => by rw [there] at same; cases same)
        split
        · exact moved other idle fun mine => absurd mine elsewhere
        · split
          · exact asleep
          · exact moved other idle fun mine => absurd mine elsewhere
      all_goals exact asleep
  | signal other => exact moved other _ fun mine => absurd (congrArg Move.signal mine) noSignal

theorem sleep_kept (moves : List (Move Client)) (final : Racing Client)
    (ran : Events.run racingStep st moves = some final)
    (quiet : ∀ move ∈ moves, (∀ handler, move ≠ .wakeUp handler) ∧ move ≠ .signal client) : (final.queue.waiters client).asleep := by
  induction moves generalizing st with
  | nil =>
      obtain rfl := Option.some.inj ran
      exact asleep
  | cons move rest ih =>
      obtain ⟨here, later⟩ := List.forall_mem_cons.mp quiet
      exact ih (racing st move) (asleep_stays st client asleep move here.1 here.2) ran later

end Unnoticed

structure LeftAsleep {Client : Type} (st : Racing Client) (client : Client) : Prop where
  asleep : (st.queue.waiters client).asleep
  opened : st.queue.shared.gateOpen = true
  nobody : ∀ handler, st.queue.owes handler = false

-- The reader finds the run switch off when it opens the device.
def oversleeps : List (Move Bool) := [.openRun true 0, .openPause true 0] ++ fallsAsleep

-- Only a wake-up or a signal ends the sleep of a reader, and cpu_open does
-- neither, whatever switches it finds on.
theorem sleep_ends_by_wake_up :
    (∀ (Client : Type) [DecidableEq Client] (st : Racing Client) (client : Client), (st.queue.waiters client).asleep →
      ∀ moves final, Events.run racingStep st moves = some final →
        (∀ move ∈ moves, (∀ handler, move ≠ .wakeUp handler) ∧ move ≠ .signal client) → (final.queue.waiters client).asleep) ∧
    ∃ (moves : List (Move Bool)) (final : Racing Bool),
      Events.run racingStep loadedRacing moves = some final ∧ LeftAsleep final true := by
  refine ⟨fun Client _ st client asleep moves final => sleep_kept st client asleep moves final,
    oversleeps ++ [.openRun false 1, .openPause false 0], _, rfl, ?_, by decide, fun handler => rfl⟩
  exact (asleep_iff _).mpr ⟨rfl, rfl⟩

theorem sleep_ends_by_wake_up_opened :
    ∃ final, Events.run racingStep loadedRacing (oversleeps ++ [.openRun false 1, .openPause false 0]) = some final ∧
      (final.queue.waiters true).asleep ∧ final.queue.shared.gateOpen = true ∧ ∀ handler, final.queue.owes handler = false := by
  refine ⟨_, rfl, ?_, by decide, fun handler => rfl⟩
  exact sleep_ends_by_wake_up.1 Bool (oversleeps.foldl racing loadedRacing) true ((asleep_iff _).mpr ⟨rfl, rfl⟩)
    [.openRun false 1, .openPause false 0] _ rfl (by simp)

end CpuEmulator.Driver
