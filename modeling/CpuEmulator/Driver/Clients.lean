import CpuEmulator.Driver.Execute
import CpuEmulator.Driver.Interrupts
import CpuEmulator.Library.Events
import Mathlib.Logic.Function.Basic

set_option autoImplicit false

namespace CpuEmulator.Driver

open Library

-- The driver with all its clients. Each has at most one open file; stepAsleep is
-- set while the step handler is between its check and its increment.
structure System (Client : Type) where
  board : Board
  stepAsleep : Bool
  files : Client → Option CpuContext

-- The interrupts with the GPIO value their handler reads, and the calls.
-- signalled is what a read does that has to wait: it returns or it goes on waiting.
inductive Event (Client : Type) where
  | runIrq (runSw : Int)
  | pauseIrq (pauseSw : Int)
  | stepIrq
  | stepIncrement (input : Int)
  | openCall (client : Client) (runSw pauseSw : Int) (kzalloc : Bool)
  | writeCall (client : Client) (len : Nat) (copyFault : Bool) (wv : WriteValue)
  | readCall (client : Client) (len : Nat) (input : Int) (copyFault signalled : Bool)

abbrev Returned := Int × Option ReadValue

section System

variable {Client : Type}

def loadedSystem : System Client := ⟨loadedBoard, false, fun _ => none⟩

def readEnv (board : Board) (input : Int) (copyFault : Bool) : ReadEnv :=
  ⟨if gateOpen board then 0 else -erestartsys, input, copyFault⟩

def passesGate (st : System Client) : Event Client → Bool
  | .readCall client len _ _ _ => (st.files client).isSome && len == sizeofReadValue && gateOpen st.board
  | _ => false

theorem executes_passing (board : Board) (len : Nat) (input : Int) (copyFault : Bool) :
    Executes len (readEnv board input copyFault) ↔ len = sizeofReadValue ∧ gateOpen board = true := by
  simp only [Executes, readEnv]
  cases gateOpen board with
  | true => exact ⟨fun executes => ⟨executes.1, rfl⟩, fun passes => ⟨passes.1, rfl⟩⟩
  | false => exact ⟨fun executes => absurd executes.2 (by decide), fun passes => absurd passes.2 Bool.false_ne_true⟩

theorem passes_iff (st : System Client) (client : Client) (ctx : CpuContext) (len : Nat) (input : Int)
    (copyFault signalled : Bool) (held : st.files client = some ctx) :
    passesGate st (.readCall client len input copyFault signalled) = true ↔
      Executes len (readEnv st.board input copyFault) := by
  rw [executes_passing, passesGate, held]
  simp

structure Control where
  atomics : Atomics
  stepAsleep : Bool

def System.control (st : System Client) : Control := ⟨st.board.atomics, st.stepAsleep⟩

def Control.after (control : Control) (passes : Bool) : Event Client → Control
  | .runIrq runSw => if runSw ≠ 0 then { control with atomics := { control.atomics with cpuRunning := 1 } } else control
  | .pauseIrq pauseSw => { control with atomics := { control.atomics with cpuPaused := if pauseSw ≠ 0 then 1 else 0 } }
  | .stepIrq => { control with stepAsleep := control.stepAsleep || control.atomics.cpuPaused != 0 }
  | .stepIncrement input =>
      if control.stepAsleep then
        ⟨if input ≠ 0 then { control.atomics with stepCount := atomicInc control.atomics.stepCount } else control.atomics, false⟩
      else control
  | .openCall _ runSw pauseSw _ =>
      if runSw < 0 then control
      else { control with atomics := { control.atomics with cpuRunning := runSw, cpuPaused := pauseSw } }
  | .writeCall _ _ _ _ => control
  | .readCall _ _ _ _ _ => if passes then { control with atomics := control.atomics.consumeStep } else control

variable [DecidableEq Client]

def System.answered (st : System Client) (client : Client) (reply : Reply) : System Client × Option Returned :=
  ({ st with board := reply.board, files := Function.update st.files client (some reply.ctx) }, some (reply.ret, reply.buf))

-- One event with the values that a call returns. The step handler runs in one
-- thread, so it takes a press only when it is not asleep; a call needs an open
-- file. What cannot happen changes nothing.
def respond (st : System Client) : Event Client → Option (System Client × Option Returned)
  | .runIrq runSw => some ({ st with board := runIrqThread runSw st.board }, none)
  | .pauseIrq pauseSw => some ({ st with board := pauseIrqThread pauseSw st.board }, none)
  | .stepIrq => some ({ st with stepAsleep := st.stepAsleep || stepIrqCheck st.board }, none)
  | .stepIncrement input =>
      if st.stepAsleep then some ({ st with board := stepIrqIncrement input st.board, stepAsleep := false }, none)
      else some (st, none)
  | .openCall client runSw pauseSw kzalloc =>
      match cpuOpen runSw pauseSw kzalloc st.board with
      | (board, .error ret) => some ({ st with board := board }, some (ret, none))
      | (board, .ok ctx) =>
          some ({ st with board := board, files := Function.update st.files client (some ctx) }, some (0, none))
  | .writeCall client len copyFault wv =>
      match st.files client with
      | none => some (st, none)
      | some ctx => (cpuWrite st.board ctx len copyFault wv).map (st.answered client)
  | .readCall client len input copyFault signalled =>
      match st.files client with
      | none => some (st, none)
      | some ctx =>
          if len = sizeofReadValue ∧ gateOpen st.board = false ∧ signalled = false then some (st, none)
          else (cpuRead (readEnv st.board input copyFault) st.board ctx len).map (st.answered client)

def systemStep (st : System Client) (event : Event Client) : Option (System Client) := (respond st event).map Prod.fst

def returned (st : System Client) (event : Event Client) : Option Returned := (respond st event).bind Prod.snd

theorem read_responds (st : System Client) (client : Client) (ctx : CpuContext) (len : Nat) (input : Int)
    (copyFault signalled : Bool) (held : st.files client = some ctx) :
    respond st (.readCall client len input copyFault signalled) =
      if len = sizeofReadValue ∧ gateOpen st.board = false ∧ signalled = false then some (st, none)
      else (cpuRead (readEnv st.board input copyFault) st.board ctx len).map (st.answered client) := by
  rw [respond, held]

theorem read_step_control (st next : System Client) (client : Client) (len : Nat) (input : Int) (copyFault signalled : Bool)
    (taken : systemStep st (.readCall client len input copyFault signalled) = some next) :
    next.control = st.control.after (passesGate st (.readCall client len input copyFault signalled))
      (.readCall client len input copyFault signalled) := by
  cases held : st.files client with
  | none =>
      rw [systemStep, respond, held] at taken
      obtain rfl := Option.some.inj taken
      rw [passesGate, held]
      rfl
  | some ctx =>
      have passes := passes_iff st client ctx len input copyFault signalled held
      rw [systemStep, read_responds st client ctx len input copyFault signalled held] at taken
      rw [Control.after]
      split at taken
      · rename_i waits
        obtain rfl := Option.some.inj taken
        rw [executes_passing, waits.2.1] at passes
        rw [if_neg fun open_ => Bool.false_ne_true (passes.mp open_).2]
      · rw [Option.map_map] at taken
        obtain ⟨reply, ran, rfl⟩ := Option.map_eq_some_iff.mp taken
        have atomics := read_reply_atomics ctx len _ st.board reply ran
        by_cases executes : Executes len (readEnv st.board input copyFault)
        · rw [if_pos executes] at atomics
          rw [if_pos (passes.mpr executes)]
          exact congrArg (fun atomics => Control.mk atomics st.stepAsleep) atomics
        · rw [if_neg executes] at atomics
          rw [if_neg fun open_ => executes (passes.mp open_)]
          exact congrArg (fun atomics => Control.mk atomics st.stepAsleep) atomics

theorem open_step_control (st next : System Client) (client : Client) (runSw pauseSw : Int) (kzalloc : Bool)
    (taken : systemStep st (.openCall client runSw pauseSw kzalloc) = some next) :
    next.control = st.control.after false (.openCall client runSw pauseSw kzalloc) := by
  rw [Control.after]
  simp only [systemStep, respond, cpuOpen] at taken
  split
  · rename_i failed
    rw [if_pos failed] at taken
    obtain rfl := Option.some.inj taken
    rfl
  · rename_i sampled
    rw [if_neg sampled] at taken
    cases kzalloc <;> obtain rfl := Option.some.inj taken <;> rfl

theorem write_step_control (st next : System Client) (client : Client) (len : Nat) (copyFault : Bool) (wv : WriteValue)
    (taken : systemStep st (.writeCall client len copyFault wv) = some next) : next.control = st.control := by
  cases held : st.files client with
  | none =>
      rw [systemStep, respond, held] at taken
      obtain rfl := Option.some.inj taken
      rfl
  | some ctx =>
      simp only [systemStep, respond, held, Option.map_map] at taken
      obtain ⟨reply, ran, rfl⟩ := Option.map_eq_some_iff.mp taken
      exact congrArg (fun atomics => Control.mk atomics st.stepAsleep) (write_reply_atomics ctx len st.board copyFault wv reply ran)

theorem step_control (st next : System Client) (event : Event Client) (taken : systemStep st event = some next) :
    next.control = st.control.after (passesGate st event) event := by
  cases event with
  | runIrq runSw =>
      obtain rfl := Option.some.inj taken
      simp only [System.control, runIrqThread, Control.after]
      split <;> rfl
  | pauseIrq pauseSw =>
      obtain rfl := Option.some.inj taken
      rfl
  | stepIrq =>
      obtain rfl := Option.some.inj taken
      rfl
  | stepIncrement input =>
      have same : st.control.stepAsleep = st.stepAsleep := rfl
      rw [systemStep, respond] at taken
      rw [Control.after, same]
      cases asleep : st.stepAsleep with
      | true =>
          rw [asleep, if_pos rfl] at taken
          obtain rfl := Option.some.inj taken
          simp only [if_true, System.control, stepIrqIncrement]
          split <;> rfl
      | false =>
          rw [asleep, if_neg Bool.false_ne_true] at taken
          obtain rfl := Option.some.inj taken
          rfl
  | openCall client runSw pauseSw kzalloc => exact open_step_control st next client runSw pauseSw kzalloc taken
  | writeCall client len copyFault wv => exact write_step_control st next client len copyFault wv taken
  | readCall client len input copyFault signalled =>
      exact read_step_control st next client len input copyFault signalled taken

end System

end CpuEmulator.Driver
