import CpuEmulator.Driver.Clients
import CpuEmulator.Library.Tokens
import Mathlib.Tactic.IntervalCases

set_option autoImplicit false

namespace CpuEmulator.Driver

open Library Tokens

section Stepping

variable {Client : Type}

def stepPressed (st : System Client) : Event Client → Bool
  | .stepIrq => !st.stepAsleep && stepIrqCheck st.board
  | _ => false

def Control.debt (control : Control) : Nat := control.atomics.stepCount.toNat + control.stepAsleep.toNat

theorem atomic_inc_le (value : Int) : (atomicInc value).toNat ≤ value.toNat + 1 := by
  simp only [atomicInc]
  split <;> omega

theorem consume_debt (control : Control) :
    ({ control with atomics := control.atomics.consumeStep } : Control).debt + (decide (0 < control.atomics.stepCount)).toNat =
      control.debt := by
  simp only [Control.debt, Atomics.consumeStep]
  by_cases pressed : 0 < control.atomics.stepCount
  · rw [if_pos pressed, decide_eq_true pressed]
    simp only [Bool.toNat_true]
    omega
  · rw [if_neg pressed, decide_eq_false pressed]
    rfl

theorem debt_after (st : System Client) (passes : Bool) (event : Event Client) :
    (st.control.after passes event).debt ≤ st.control.debt + (stepPressed st event).toNat := by
  cases event with
  | runIrq runSw =>
      rw [Control.after]
      split <;> exact Nat.le_refl _
  | pauseIrq pauseSw => exact Nat.le_refl _
  | stepIrq =>
      have asleep : st.control.stepAsleep = st.stepAsleep := rfl
      have paused : st.control.atomics.cpuPaused = st.board.cpuPaused := rfl
      simp only [Control.after, Control.debt, stepPressed, stepIrqCheck, asleep, paused]
      cases st.stepAsleep <;> cases st.board.cpuPaused != 0 <;> exact Nat.le_refl _
  | stepIncrement input =>
      rw [Control.after]
      cases asleep : st.control.stepAsleep with
      | false => exact Nat.le_refl _
      | true =>
          have counted := atomic_inc_le st.control.atomics.stepCount
          simp only [if_true, Control.debt, asleep, Bool.toNat_true, Bool.toNat_false]
          split
          · dsimp only
            omega
          · omega
  | openCall client runSw pauseSw kzalloc =>
      rw [Control.after]
      split <;> exact Nat.le_refl _
  | writeCall client len copyFault wv => exact Nat.le_refl _
  | readCall client len input copyFault signalled =>
      have consumed := consume_debt st.control
      rw [Control.after]
      split
      · omega
      · exact Nat.le_refl _

theorem fresh_debt (st : System Client) (steps : st.board.stepCount ≤ 0) (awake : st.stepAsleep = false) :
    st.control.debt = 0 := by
  have asleep : st.control.stepAsleep = st.stepAsleep := rfl
  have count : st.control.atomics.stepCount = st.board.stepCount := rfl
  rw [Control.debt, asleep, count, awake, Int.toNat_of_nonpos steps]
  rfl

variable [DecidableEq Client]

def becomes (holds : Board → Bool) (st : System Client) (event : Event Client) : Bool :=
  !holds st.board && (systemStep st event).elim false (fun next => holds next.board)

def pauseStarts : System Client → Event Client → Bool := becomes (fun board => board.cpuPaused == 1)

def opens : Event Client → Bool
  | .openCall _ _ _ _ => true
  | _ => false

-- A program starts when its client opens the device and when the run flag goes up.
def programStarts (st : System Client) (event : Event Client) : Bool :=
  opens event || becomes (fun board => board.cpuRunning != 0) st event

-- Presses are issues, and the reads that pass the gate during a pause spend them.
-- What was pressed before an event that starts counts no more.
def stepMark (starts : System Client → Event Client → Bool) (st : System Client) (event : Event Client) : Mark :=
  if starts st event then .reset
  else if stepPressed st event then .issue
  else if passesGate st event && st.board.cpuPaused == 1 then .spend
  else .other

def stepMarks (starts : System Client → Event Client → Bool) (events : List (Event Client)) : List Mark :=
  Events.collect systemStep (fun st event => some (stepMark starts st event)) loadedSystem events

-- No press is left over at a start, neither as a token nor in the sleeping handler.
def StartsFresh (starts : System Client → Event Client → Bool) (st : System Client) (event : Event Client) : Prop :=
  starts st event = true → st.board.stepCount ≤ 0 ∧ st.stepAsleep = false

theorem step_debt (st next : System Client) (event : Event Client) (taken : systemStep st event = some next) :
    next.control.debt ≤ st.control.debt + (stepPressed st event).toNat := by
  rw [step_control st next event taken]
  exact debt_after st _ event

theorem paused_pass_debt (st : System Client) (event : Event Client) (passes : passesGate st event = true)
    (paused : st.board.cpuPaused = 1) :
    0 < st.control.debt ∧ ∀ next, systemStep st event = some next → next.control.debt + 1 ≤ st.control.debt := by
  have opened : gateOpen st.board = true := by
    cases event with
    | readCall client len input copyFault signalled => exact (Bool.and_eq_true_iff.mp passes).2
    | runIrq | pauseIrq | stepIrq | stepIncrement | openCall | writeCall => cases passes
  have token : 0 < st.control.atomics.stepCount := by
    simp only [gateOpen, Atomics.gateOpen, Board.atomics, paused, Bool.and_eq_true, Bool.or_eq_true, decide_eq_true_eq] at opened
    exact opened.2.resolve_left (by decide)
  have consumed := consume_debt st.control
  rw [decide_eq_true token, Bool.toNat_true] at consumed
  refine ⟨by omega, fun next taken => ?_⟩
  rw [step_control st next event taken, passes]
  cases event with
  | readCall client len input copyFault signalled => exact Nat.le_of_eq consumed
  | runIrq | pauseIrq | stepIrq | stepIncrement | openCall | writeCall => cases passes

section Starts

variable (starts : System Client → Event Client → Bool)

theorem mark_credited (st : System Client) (event : Event Client) (credit : Nat) (covered : st.control.debt ≤ credit)
    (quiet : starts st event = true → stepPressed st event = false) (fresh : StartsFresh starts st event) :
    ∃ later, creditStep credit (stepMark starts st event) = some later ∧
      ∀ next, systemStep st event = some next → next.control.debt ≤ later := by
  have owed := fun next taken => step_debt st next event taken
  rw [stepMark]
  by_cases started : starts st event = true
  · obtain ⟨steps, awake⟩ := fresh started
    rw [fresh_debt st steps awake, quiet started] at owed
    rw [if_pos started]
    exact ⟨0, rfl, owed⟩
  · rw [if_neg started]
    by_cases pressed : stepPressed st event = true
    · rw [pressed] at owed
      rw [if_pos pressed]
      exact ⟨credit + 1, rfl, fun next taken => Nat.le_trans (owed next taken) (Nat.add_le_add_right covered 1)⟩
    · rw [Bool.not_eq_true] at pressed
      rw [pressed] at owed
      rw [if_neg (by rw [pressed]; decide)]
      by_cases spent : (passesGate st event && st.board.cpuPaused == 1) = true
      · obtain ⟨passes, paused⟩ := Bool.and_eq_true_iff.mp spent
        obtain ⟨some, paid⟩ := paused_pass_debt st event passes (beq_iff_eq.mp paused)
        rw [if_pos spent]
        cases credit with
        | zero => omega
        | succ credit =>
            refine ⟨credit, rfl, fun next taken => ?_⟩
            have left := paid next taken
            omega
      · rw [if_neg spent]
        exact ⟨credit, rfl, fun next taken => Nat.le_trans (owed next taken) covered⟩

theorem marks_credited (quiet : ∀ st event, starts st event = true → stepPressed st event = false) (st : System Client)
    (events : List (Event Client)) (credit : Nat) (covered : st.control.debt ≤ credit)
    (along : Events.Along systemStep (StartsFresh starts) st events) :
    ∃ final, Events.run creditStep credit
      (Events.collect systemStep (fun st event => some (stepMark starts st event)) st events) = some final := by
  induction events generalizing st credit with
  | nil => exact ⟨credit, rfl⟩
  | cons event rest ih =>
      obtain ⟨here, later⟩ := along
      obtain ⟨next, stepped, owed⟩ := mark_credited starts st event credit covered (quiet st event) here
      rw [Events.collect, Option.toList_some, List.singleton_append, Events.run_cons, stepped]
      cases taken : systemStep st event with
      | none => exact ⟨next, rfl⟩
      | some after => exact ih after next (owed after taken) (later after taken)

theorem stepping_matched (quiet : ∀ st event, starts st event = true → stepPressed st event = false)
    (events : List (Event Client)) (along : Events.Along systemStep (StartsFresh starts) loadedSystem events) :
    ∃ f, Matching (stepMarks starts events) f := by
  obtain ⟨final, ran⟩ := marks_credited starts quiet loadedSystem events 0 (Nat.le_refl 0) along
  exact credit_matching _ final ran

end Starts

theorem becomes_quiet (holds : Board → Bool) (st : System Client) (event : Event Client)
    (became : becomes holds st event = true) : stepPressed st event = false := by
  cases event with
  | stepIrq =>
      obtain ⟨before, after⟩ := Bool.and_eq_true_iff.mp became
      rw [Bool.not_eq_true'] at before
      have same : holds st.board = true := after
      rw [before] at same
      cases same
  | runIrq | pauseIrq | stepIncrement | openCall | writeCall | readCall => rfl

theorem program_starts_quiet (st : System Client) (event : Event Client) (started : programStarts st event = true) :
    stepPressed st event = false := by
  rcases Bool.or_eq_true_iff.mp started with opened | became
  · cases event with
    | openCall => rfl
    | runIrq | pauseIrq | stepIrq | stepIncrement | writeCall | readCall => cases opened
  · exact becomes_quiet _ st event became

def sessionStarts (st : System Client) (event : Event Client) : Bool := pauseStarts st event || programStarts st event

-- If no press is left over when a pause starts, every read that passes the gate
-- during a pause has a press of its own from that pause.
theorem single_stepping_exact (events : List (Event Client)) :
    (Events.Along systemStep (StartsFresh pauseStarts) loadedSystem events →
      ∃ f, Matching (stepMarks pauseStarts events) f) ∧
    (Events.Along systemStep (StartsFresh sessionStarts) loadedSystem events →
      ∃ f, Matching (stepMarks sessionStarts events) f) := by
  constructor
  · exact stepping_matched pauseStarts (becomes_quiet _) events
  · apply stepping_matched sessionStarts
    intro st event started
    rcases Bool.or_eq_true_iff.mp started with paused | program
    · exact becomes_quiet _ st event paused
    · exact program_starts_quiet st event program

end Stepping

def readNow : Event Unit := .readCall () sizeofReadValue 0 false false

def steppedOnce : List (Event Unit) := [.openCall () 1 1 true, .stepIrq, .stepIncrement 1, readNow, readNow]

theorem single_stepping_exact_once :
    stepMarks sessionStarts steppedOnce = [.reset, .issue, .other, .spend, .other] ∧
      ∃ f, Matching (stepMarks sessionStarts steppedOnce) f := by
  refine ⟨rfl, (single_stepping_exact steppedOnce).2 ⟨fun _ => ⟨Int.le_refl 0, rfl⟩, fun opened atOpen => ?_⟩⟩
  obtain rfl := Option.some.inj atOpen
  refine ⟨fun started => absurd started (by decide), fun pressed atPress => ?_⟩
  obtain rfl := Option.some.inj atPress
  refine ⟨fun started => absurd started (by decide), fun counted atIncrement => ?_⟩
  obtain rfl := Option.some.inj atIncrement
  refine ⟨fun started => absurd started (by decide), fun passed atRead => ?_⟩
  obtain rfl := Option.some.inj atRead
  exact ⟨fun started => absurd started (by decide), fun _ _ => trivial⟩

def leftOverPress : List (Event Unit) :=
  [.pauseIrq 1, .stepIrq, .stepIncrement 1, .pauseIrq 0, .openCall () 1 0 true, .pauseIrq 1, readNow]

theorem left_over_press_executes : ¬ ∃ f, Matching (stepMarks pauseStarts leftOverPress) f := by
  rintro ⟨f, matching⟩
  have marks : stepMarks pauseStarts leftOverPress = [.reset, .issue, .other, .other, .other, .reset, .spend] := rfl
  rw [marks] at matching
  obtain ⟨earlier, issued⟩ := matching.issued 6 rfl
  have pressed : f 6 = 1 := by
    generalize f 6 = press at earlier issued
    interval_cases press <;> first | rfl | cases issued
  exact matching.valid 6 5 rfl (by rw [pressed]; decide) (by decide) rfl

end CpuEmulator.Driver
