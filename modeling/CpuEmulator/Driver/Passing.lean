import CpuEmulator.Driver.Waiting
import Mathlib.Data.Fintype.Card

set_option autoImplicit false

namespace CpuEmulator.Driver

open Library WaitQueue

def gateRelies : GateRead → Atomics → Prop
  | .running, _ => True
  | .paused, atomics | .steps, atomics => atomics.cpuRunning ≠ 0

theorem exec_wq_grounds : Grounds execWq gateRelies where
  start _ := trivial
  asked phase next shared asks held := by
    simp only [execWq, gateProbe] at asks
    cases phase with
    | running =>
        dsimp only at asks
        split at asks
        · cases asks
        · rename_i running
          cases asks
          exact running
    | paused =>
        dsimp only at asks
        split at asks <;> cases asks
        exact held
    | steps =>
        dsimp only at asks
        split at asks <;> cases asks
  passed phase shared holds held := by
    simp only [execWq, gateProbe] at holds
    cases phase with
    | running =>
        dsimp only at holds
        split at holds <;> cases holds
    | paused =>
        dsimp only at holds
        split at holds
        · rename_i off
          exact (gate_open_iff shared).mpr ⟨held, Or.inl off⟩
        · cases holds
    | steps =>
        dsimp only at holds
        split at holds
        · rename_i pressed
          exact (gate_open_iff shared).mpr ⟨held, Or.inr pressed⟩
        · cases holds

section Passing

variable {Client : Type} [DecidableEq Client]

def AllGrounded (st : Racing Client) : Prop := ∀ client, Grounded gateRelies st.queue.shared (st.queue.waiters client)

def NobodyChecks (st : Racing Client) : Prop := ∀ client, (st.queue.waiters client).place.checking = none

def Steady (st : Racing Client) : Move Client → Prop
  | .openRun _ runSw => runSw ≠ 0 ∨ NobodyChecks st
  | .openPause _ _ | .readConsume _ | .runIrq _ | .pauseIrq _ | .stepIrq | .stepIncrement _ | .wakeUp _ | .readEnter _
  | .readAdvance _ | .signal _ => True

theorem grounded_stored (before after : Atomics) (waiter : Waiter GateRead) (grounded : Grounded gateRelies before waiter)
    (kept : before.cpuRunning ≠ 0 → after.cpuRunning ≠ 0) : Grounded gateRelies after waiter := by
  intro phase here
  have held := grounded phase here
  cases phase with
  | running => trivial
  | paused | steps => exact kept held

theorem moved_grounded (queue : State Atomics Handler Client GateRead) (who : Client) (waiter : Waiter GateRead)
    (grounded : ∀ client, Grounded gateRelies queue.shared (queue.waiters client)) (moved : Grounded gateRelies queue.shared waiter)
    (client : Client) : Grounded gateRelies (queue.move who waiter).shared ((queue.move who waiter).waiters client) := by
  rw [State.move]
  dsimp only
  by_cases mine : client = who
  · rw [mine, Function.update_self]
    exact moved
  · rw [Function.update_of_ne mine]
    exact grounded client

theorem idle_grounded (atomics : Atomics) : Grounded gateRelies atomics idle := fun _ here => by cases here

theorem racing_grounded (st : Racing Client) (move : Move Client) (grounded : AllGrounded st) (steady : Steady st move) :
    AllGrounded (racing st move) := by
  have stored (atomics : Atomics) (kept : st.queue.shared.cpuRunning ≠ 0 → atomics.cpuRunning ≠ 0) (client : Client) :
      Grounded gateRelies atomics (st.queue.waiters client) :=
    grounded_stored _ _ _ (grounded client) kept
  cases move with
  | runIrq runSw =>
      rw [racing]
      split
      · exact stored _ fun _ => Int.one_ne_zero
      · exact grounded
  | pauseIrq pauseSw =>
      rw [racing]
      split
      · exact grounded
      · split <;> exact stored _ id
  | stepIrq =>
      rw [racing]
      split <;> exact grounded
  | stepIncrement input =>
      rw [racing]
      split
      · dsimp only
        split
        · exact stored _ id
        · exact grounded
      · exact grounded
  | wakeUp handler =>
      rw [racing]
      split
      · exact fun client => wake_grounded gateRelies _ _ (grounded client)
      · exact grounded
  | openRun client runSw =>
      rw [racing]
      split
      · exact grounded
      · rcases steady with up | nobody
        · exact stored _ fun _ => up
        · intro any phase here
          have checks : (st.queue.waiters any).place.checking = some phase := here
          rw [nobody any] at checks
          cases checks
  | openPause client pauseSw =>
      rw [racing]
      split
      · exact stored _ id
      · exact grounded
  | readEnter client =>
      exact moved_grounded st.queue client _ grounded (enter_grounded execWq gateRelies exec_wq_grounds _ _ (grounded client))
  | readAdvance client =>
      exact moved_grounded st.queue client _ grounded (advance_grounded execWq gateRelies exec_wq_grounds _ _ (grounded client))
  | readConsume client =>
      have left := moved_grounded st.queue client idle grounded (idle_grounded _)
      rw [racing]
      split
      · exact left
      · split
        · exact moved_grounded (st.queue.alter _) client idle (stored _ id) (idle_grounded _)
        · split
          · exact grounded
          · exact left
      all_goals exact grounded
  | signal client => exact moved_grounded st.queue client _ grounded (grounded client)

end Passing

-- A reader gets through at an instant at which the gate is open, although its
-- reads are at three different ones.
theorem readers_pass_open_gate {Client : Type} [DecidableEq Client] (moves : List (Move Client))
    (steady : Events.Along racingStep Steady loadedRacing moves) (st : Racing Client)
    (ran : Events.run racingStep loadedRacing moves = some st) (client : Client)
    (waiting : (st.queue.waiters client).place ≠ .passed)
    (passed : ((racing st (.readAdvance client)).queue.waiters client).place = .passed) : st.queue.shared.gateOpen = true := by
  obtain ⟨same, again, grounded⟩ := Events.run_total racingStep Steady AllGrounded
    (fun st move grounded steady => ⟨racing st move, rfl, racing_grounded st move grounded steady⟩) loadedRacing moves
    (fun client => idle_grounded _) steady
  obtain rfl := Option.some.inj (again.symm.trans ran)
  have advanced : ((racing same (.readAdvance client)).queue.waiters client) =
      (same.queue.waiters client).advance execWq same.queue.shared := Function.update_self _ _ _
  rw [advanced] at passed
  exact pass_holds execWq gateRelies exec_wq_grounds _ _ (grounded client) waiting passed

def nearlyPassed : List (Move Bool) := [.runIrq 1, .readEnter true, .readAdvance true]

theorem readers_pass_open_gate_run_switch : (nearlyPassed.foldl racing loadedRacing).queue.shared.gateOpen = true :=
  readers_pass_open_gate nearlyPassed ⟨trivial, fun _ _ => ⟨trivial, fun _ _ => ⟨trivial, fun _ _ => trivial⟩⟩⟩ _ rfl true
    (fun same => by cases same) rfl

section Presses

variable {Client : Type} [DecidableEq Client]

def countsPress (st : Racing Client) : Move Client → Bool
  | .stepIncrement input => st.stepAsleep && input != 0
  | _ => false

def takesPress (st : Racing Client) : Move Client → Bool
  | .readConsume client =>
      match (st.queue.waiters client).place with
      | .passed => st.spending client
      | _ => false
  | _ => false

def tally (what : Racing Client → Move Client → Bool) (moves : List (Move Client)) : Nat :=
  (Events.collect racingStep (fun st move => if what st move then some () else none) loadedRacing moves).length

def Unwrapped (st : Racing Client) : Move Client → Prop
  | .stepIncrement _ => st.queue.shared.stepCount ≠ 2147483647
  | _ => True

theorem tally_snoc (what : Racing Client → Move Client → Bool) (moves : List (Move Client)) (st : Racing Client) (move : Move Client)
    (ran : Events.run racingStep loadedRacing moves = some st) :
    tally what (moves ++ [move]) = tally what moves + (what st move).toNat := by
  rw [tally, Events.collect_snoc racingStep _ loadedRacing st moves move ran, List.length_append, tally]
  cases what st move <;> rfl

variable [Fintype Client]

def spenders (st : Racing Client) : Nat := (Finset.univ.filter fun client => st.spending client = true).card

structure Pressed (moves : List (Move Client)) (st : Racing Client) : Prop where
  balance : st.queue.shared.stepCount = tally countsPress moves - tally takesPress moves
  overdrawn : -((Fintype.card Client - 1 : Nat) : Int) ≤ st.queue.shared.stepCount - spenders st

theorem pressed_same (moves : List (Move Client)) (st : Racing Client) (move : Move Client)
    (ran : Events.run racingStep loadedRacing moves = some st) (pressed : Pressed moves st) (next : Racing Client)
    (counts : countsPress st move = false) (takes : takesPress st move = false)
    (steps : next.queue.shared.stepCount = st.queue.shared.stepCount) (spending : next.spending = st.spending) :
    Pressed (moves ++ [move]) next := by
  refine ⟨?_, ?_⟩
  · rw [tally_snoc countsPress moves st move ran, tally_snoc takesPress moves st move ran, counts, takes, steps]
    exact pressed.balance
  · rw [steps, spenders, spending]
    exact pressed.overdrawn

theorem consume_pressed (moves : List (Move Client)) (st : Racing Client) (client : Client)
    (ran : Events.run racingStep loadedRacing moves = some st) (pressed : Pressed moves st)
    (few : Fintype.card Client ≤ 2 ^ 31) : Pressed (moves ++ [.readConsume client]) (racing st (.readConsume client)) := by
  have same := pressed_same moves st (.readConsume client) ran pressed
  have balance := pressed.balance
  have overdrawn := pressed.overdrawn
  cases place : (st.queue.waiters client).place with
  | outside | quick | prepare | check | sleep =>
      have unchanged : racing st (.readConsume client) = st := by simp only [racing, place]
      rw [unchanged]
      exact same st rfl (by simp only [takesPress, place]) rfl rfl
  | interrupted =>
      have left : racing st (.readConsume client) = st.move client idle := by simp only [racing, place]
      rw [left]
      exact same _ rfl (by simp only [takesPress, place]) rfl rfl
  | passed =>
      have takes : takesPress st (.readConsume client) = st.spending client := by rw [takesPress, place]
      rw [racing, place]
      dsimp only
      cases spends : st.spending client with
      | true =>
          rw [if_pos rfl]
          have member : client ∈ Finset.univ.filter fun any => st.spending any = true := by simp [spends]
          have fewer : (Finset.univ.filter fun any => Function.update st.spending client false any = true) =
              (Finset.univ.filter fun any => st.spending any = true).erase client := by
            ext any
            by_cases mine : any = client
            · simp [mine]
            · simp [mine]
          have some : 0 < spenders st := Finset.card_pos.mpr ⟨client, member⟩
          have inside : st.queue.shared.stepCount ≠ -2147483648 := by omega
          refine ⟨?_, ?_⟩
          · rw [tally_snoc countsPress moves st _ ran, tally_snoc takesPress moves st _ ran, takes, spends]
            change atomicDec st.queue.shared.stepCount = _
            rw [atomicDec, if_neg inside]
            simp only [countsPress, Bool.toNat_false, Bool.toNat_true]
            omega
          · rw [spenders]
            dsimp only
            rw [fewer, Finset.card_erase_of_mem member]
            change _ ≤ atomicDec st.queue.shared.stepCount - _
            rw [atomicDec, if_neg inside]
            rw [spenders] at some overdrawn
            omega
      | false =>
          rw [if_neg Bool.false_ne_true]
          split
          · rename_i left
            refine ⟨?_, ?_⟩
            · rw [tally_snoc countsPress moves st _ ran, tally_snoc takesPress moves st _ ran, takes, spends]
              exact balance
            · have someone : 0 < Fintype.card Client := Fintype.card_pos_iff.mpr ⟨client⟩
              have bound := Finset.card_le_univ (Finset.univ.filter fun any => Function.update st.spending client true any = true)
              rw [spenders]
              dsimp only
              omega
          · exact same _ rfl (takes.trans spends) rfl rfl

theorem racing_pressed (moves : List (Move Client)) (st : Racing Client) (move : Move Client)
    (ran : Events.run racingStep loadedRacing moves = some st) (pressed : Pressed moves st)
    (few : Fintype.card Client ≤ 2 ^ 31) (unwrapped : Unwrapped st move) : Pressed (moves ++ [move]) (racing st move) := by
  have same := pressed_same moves st move ran pressed
  cases move with
  | runIrq runSw =>
      refine same _ rfl rfl ?_ ?_
      all_goals
        rw [racing]
        split <;> rfl
  | pauseIrq pauseSw =>
      refine same _ rfl rfl ?_ ?_
      all_goals
        rw [racing]
        split
        · rfl
        · split <;> rfl
  | stepIrq | wakeUp handler | openRun client runSw | openPause client pauseSw =>
      refine same _ rfl rfl ?_ ?_
      all_goals
        rw [racing]
        split <;> rfl
  | stepIncrement input =>
      cases asleep : st.stepAsleep with
      | false =>
          refine same _ (by rw [countsPress, asleep]; rfl) rfl ?_ ?_
          all_goals
            rw [racing, asleep]
            rfl
      | true =>
          rw [racing, asleep, if_pos rfl]
          dsimp only
          split
          · rename_i pressedNow
            have balance := pressed.balance
            have overdrawn := pressed.overdrawn
            have counts : countsPress st (.stepIncrement input) = true := by
              rw [countsPress, asleep, Bool.true_and]
              exact bne_iff_ne.mpr pressedNow
            have next : atomicInc st.queue.shared.stepCount = st.queue.shared.stepCount + 1 := if_neg unwrapped
            refine ⟨?_, ?_⟩
            · rw [tally_snoc countsPress moves st _ ran, tally_snoc takesPress moves st _ ran, counts]
              change atomicInc st.queue.shared.stepCount = _
              rw [next]
              simp only [takesPress, Bool.toNat_false, Bool.toNat_true]
              omega
            · change _ ≤ atomicInc st.queue.shared.stepCount - (spenders st : Int)
              rw [next]
              omega
          · rename_i released
            refine same _ ?_ rfl rfl rfl
            rw [countsPress, asleep, Bool.true_and]
            exact bne_eq_false_iff_eq.mpr (not_not.mp released)
  | readEnter client | readAdvance client | signal client => exact same _ rfl rfl rfl rfl
  | readConsume client => exact consume_pressed moves st client ran pressed few

end Presses

-- Readers that race for one press can all take it, each but the first on credit.
-- A single reader never takes more than was pressed.
theorem presses_overdrawn_at_most {Client : Type} [DecidableEq Client] [Fintype Client] (few : Fintype.card Client ≤ 2 ^ 31)
    (moves : List (Move Client)) (unwrapped : Events.Along racingStep Unwrapped loadedRacing moves) :
    tally takesPress moves ≤ tally countsPress moves + (Fintype.card Client - 1) := by
  obtain ⟨st, ran, _⟩ := Events.run_total racingStep (fun _ _ => True) (fun _ => True) (fun st move _ _ => ⟨racing st move, rfl, trivial⟩)
    loadedRacing moves trivial (Events.along_trivial racingStep loadedRacing moves)
  have pressed := Events.history_induction racingStep Unwrapped loadedRacing Pressed ?_ ?_ moves unwrapped st ran
  · have balance := pressed.balance
    have overdrawn := pressed.overdrawn
    omega
  · have nobody : spenders (loadedRacing : Racing Client) = 0 := by simp [spenders, loadedRacing]
    refine ⟨rfl, ?_⟩
    rw [nobody]
    change _ ≤ (0 : Int) - 0
    omega
  · intro soFar st move next ran pressed unwrapped taken
    obtain rfl := Option.some.inj taken
    exact racing_pressed soFar st move ran pressed few unwrapped

def bothTake : List (Move Bool) :=
  [.runIrq 1, .pauseIrq 1, .stepIrq, .stepIncrement 1, .readEnter true, .readAdvance true, .readAdvance true, .readAdvance true,
    .readEnter false, .readAdvance false, .readAdvance false, .readAdvance false, .readConsume true, .readConsume false,
    .readConsume true, .readConsume false]

theorem presses_overdrawn_at_most_two_readers :
    tally takesPress bothTake = 2 ∧ tally countsPress bothTake = 1 ∧ tally takesPress bothTake ≤ tally countsPress bothTake + 1 := by
  refine ⟨rfl, rfl, presses_overdrawn_at_most (by decide) bothTake ?_⟩
  simp only [bothTake, Events.Along, racingStep, Option.some.injEq, forall_eq', Unwrapped]
  decide

end CpuEmulator.Driver
