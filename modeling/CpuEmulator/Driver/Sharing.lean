import CpuEmulator.Driver.Calls
import CpuEmulator.Driver.Clients
import CpuEmulator.Library.Noninterference

set_option autoImplicit false

namespace CpuEmulator.Driver

open Library Noninterference

section Sharing

variable {Client : Type}

def caller : Event Client → Option Client
  | .openCall client _ _ _ | .writeCall client _ _ _ | .readCall client _ _ _ _ => some client
  | _ => none

structure SameBut (client : Client) (st other : System Client) : Prop where
  control : st.control = other.control
  files : ∀ c, c ≠ client → st.files c = other.files c

theorem board_atomics (st other : System Client) (control : st.control = other.control) :
    st.board.atomics = other.board.atomics := congrArg Control.atomics control

theorem gate_same (st other : System Client) (control : st.control = other.control) :
    gateOpen st.board = gateOpen other.board := congrArg Atomics.gateOpen (board_atomics st other control)

theorem passes_same (st other : System Client) (event : Event Client) (control : st.control = other.control)
    (file : ∀ client, caller event = some client → st.files client = other.files client) :
    passesGate st event = passesGate other event := by
  cases event with
  | readCall client len input copyFault signalled =>
      rw [passesGate, passesGate, file client rfl, gate_same st other control]
  | runIrq | pauseIrq | stepIrq | stepIncrement | openCall | writeCall => rfl

theorem other_files (b : Client) (st other : System Client) (event : Event Client) (same : SameBut b st other)
    (notCalled : caller event ≠ some b) (client : Client) (called : caller event = some client) :
    st.files client = other.files client :=
  same.files client fun mine => notCalled (by rw [called, mine])

variable [DecidableEq Client]

def without (client : Client) : List (Event Client) → List (Event Client) := purge (fun event => caller event == some client)

def returnedTo (client : Client) (st : System Client) (event : Event Client) : Option Returned :=
  if caller event = some client then returned st event else none

def returns (client : Client) (st : System Client) (events : List (Event Client)) : List Returned :=
  Events.collect systemStep (returnedTo client) st events

-- The client finds the switches as the flags already say, and its reads use up no
-- step token.
def LeavesShared (client : Client) (st : System Client) : Event Client → Prop
  | .openCall other runSw pauseSw _ =>
      other = client → runSw < 0 ∨ runSw = st.board.cpuRunning ∧ pauseSw = st.board.cpuPaused
  | .readCall other len input copyFault signalled =>
      other = client → passesGate st (.readCall other len input copyFault signalled) = true → st.board.stepCount ≤ 0
  | _ => True

theorem answered_file (st : System Client) (client : Client) (reply : Reply) :
    (st.answered client reply).1.files client = some reply.ctx := Function.update_self _ _ _

theorem step_files (st next : System Client) (event : Event Client) (c : Client) (notCaller : caller event ≠ some c)
    (taken : systemStep st event = some next) : next.files c = st.files c := by
  have apart (client : Client) (ctx : Option CpuContext) (called : caller event = some client) :
      Function.update st.files client ctx c = st.files c :=
    Function.update_of_ne (fun same => notCaller (by rw [same, called])) _ _
  cases event with
  | runIrq | pauseIrq | stepIrq =>
      obtain rfl := Option.some.inj taken
      rfl
  | stepIncrement input =>
      rw [systemStep, respond] at taken
      split at taken <;> obtain rfl := Option.some.inj taken <;> rfl
  | openCall client runSw pauseSw kzalloc =>
      rw [systemStep, respond] at taken
      split at taken <;> obtain rfl := Option.some.inj taken
      · rfl
      · exact apart client _ rfl
  | writeCall client len copyFault wv =>
      rw [systemStep, respond] at taken
      split at taken
      · obtain rfl := Option.some.inj taken
        rfl
      · rw [Option.map_map] at taken
        obtain ⟨reply, _, rfl⟩ := Option.map_eq_some_iff.mp taken
        exact apart client _ rfl
  | readCall client len input copyFault signalled =>
      rw [systemStep, respond] at taken
      split at taken
      · obtain rfl := Option.some.inj taken
        rfl
      · split at taken
        · obtain rfl := Option.some.inj taken
          rfl
        · rw [Option.map_map] at taken
          obtain ⟨reply, _, rfl⟩ := Option.map_eq_some_iff.mp taken
          exact apart client _ rfl

def seen (event : Event Client) (response : System Client × Option Returned) :
    Option (Option CpuContext) × Option Returned :=
  ((caller event).map response.1.files, response.2)

theorem answered_seen (st : System Client) (client : Client) (event : Event Client) (called : caller event = some client) :
    seen event ∘ st.answered client = (fun visible => (some (some visible.2.1), some visible.2.2)) ∘ Reply.visible := by
  funext reply
  simp only [Function.comp_apply, seen, called, Option.map_some, answered_file]
  rfl

section Responses

variable (st other : System Client)

theorem write_seen (client : Client) (len : Nat) (copyFault : Bool) (wv : WriteValue) (control : st.control = other.control)
    (file : st.files client = other.files client) :
    (respond st (.writeCall client len copyFault wv)).map (seen (.writeCall client len copyFault wv)) =
      (respond other (.writeCall client len copyFault wv)).map (seen (.writeCall client len copyFault wv)) := by
  cases held : other.files client with
  | none =>
      rw [held] at file
      simp only [respond, held, file, Option.map_some, seen, caller]
  | some ctx =>
      rw [held] at file
      simp only [respond, held, file]
      rw [Option.map_map, Option.map_map, answered_seen st client _ rfl, answered_seen other client _ rfl,
        ← Option.map_map, ← Option.map_map, write_visible ctx len _ _ copyFault wv (board_atomics st other control)]

theorem read_seen (client : Client) (len : Nat) (input : Int) (copyFault signalled : Bool)
    (control : st.control = other.control) (file : st.files client = other.files client) :
    (respond st (.readCall client len input copyFault signalled)).map (seen (.readCall client len input copyFault signalled)) =
      (respond other (.readCall client len input copyFault signalled)).map
        (seen (.readCall client len input copyFault signalled)) := by
  cases held : other.files client with
  | none =>
      rw [held] at file
      simp only [respond, held, file, Option.map_some, seen, caller]
  | some ctx =>
      rw [held] at file
      rw [read_responds st client ctx len input copyFault signalled file,
        read_responds other client ctx len input copyFault signalled held, readEnv, readEnv, gate_same st other control]
      split
      · simp only [Option.map_some, seen, caller, file, held]
      · rw [Option.map_map, Option.map_map, answered_seen st client _ rfl, answered_seen other client _ rfl,
          ← Option.map_map, ← Option.map_map, read_visible ctx len _ _ _ (board_atomics st other control)]

theorem respond_seen (event : Event Client) (control : st.control = other.control)
    (file : ∀ client, caller event = some client → st.files client = other.files client) :
    (respond st event).map (seen event) = (respond other event).map (seen event) := by
  cases event with
  | runIrq | pauseIrq | stepIrq => rfl
  | stepIncrement input =>
      have asleep : st.stepAsleep = other.stepAsleep := congrArg Control.stepAsleep control
      rw [respond, respond, asleep]
      split <;> rfl
  | openCall client runSw pauseSw kzalloc =>
      have same := file client rfl
      simp only [respond, cpuOpen]
      by_cases failed : runSw < 0
      · simp only [if_pos failed, Option.map_some, seen, caller, same]
      · cases kzalloc with
        | false => simp only [if_neg failed, Bool.false_eq_true, if_false, Option.map_some, seen, caller, same]
        | true => simp only [if_neg failed, if_true, Option.map_some, seen, caller, Function.update_self]
  | writeCall client len copyFault wv => exact write_seen st other client len copyFault wv control (file client rfl)
  | readCall client len input copyFault signalled =>
      exact read_seen st other client len input copyFault signalled control (file client rfl)

end Responses

section Apart

variable (b : Client)

theorem leaves_control (st next : System Client) (event : Event Client) (called : caller event = some b)
    (leaves : LeavesShared b st event) (taken : systemStep st event = some next) : next.control = st.control := by
  rw [step_control st next event taken]
  cases event with
  | runIrq | pauseIrq | stepIrq | stepIncrement => cases called
  | openCall client runSw pauseSw kzalloc =>
      rw [Control.after]
      split
      · rfl
      · rename_i sampled
        obtain ⟨running, paused⟩ := (leaves (Option.some.inj called)).resolve_left sampled
        rw [running, paused]
        rfl
  | writeCall => rfl
  | readCall client len input copyFault signalled =>
      rw [Control.after]
      split
      · rename_i passes
        have none : ¬ 0 < st.control.atomics.stepCount := Int.not_lt.mpr (leaves (Option.some.inj called) passes)
        rw [Atomics.consumeStep, if_neg none]
      · rfl

theorem step_same (st other next : System Client) (event : Event Client) (same : SameBut b st other)
    (notCalled : caller event ≠ some b) (taken : systemStep st event = some next) :
    ∃ after, systemStep other event = some after ∧ SameBut b next after := by
  have files := other_files b st other event same notCalled
  have answers := respond_seen st other event same.control files
  obtain ⟨response, responded, rfl⟩ := Option.map_eq_some_iff.mp taken
  rw [responded, Option.map_some] at answers
  obtain ⟨reply, replied, seenSame⟩ := Option.map_eq_some_iff.mp answers.symm
  have followed : systemStep other event = some reply.1 := by rw [systemStep, replied, Option.map_some]
  refine ⟨reply.1, followed, ?_, fun c apart => ?_⟩
  · rw [step_control st response.1 event taken, step_control other reply.1 event followed, same.control,
      passes_same st other event same.control files]
  · by_cases called : caller event = some c
    · have file := congrArg Prod.fst seenSame
      simp only [seen, called, Option.map_some, Option.some.injEq] at file
      exact file.symm
    · rw [step_files st response.1 event c called taken, step_files other reply.1 event c called followed]
      exact same.files c apart

theorem returned_same (st other : System Client) (event : Event Client) (same : SameBut b st other)
    (notCalled : caller event ≠ some b) : returned st event = returned other event := by
  have answers := respond_seen st other event same.control (other_files b st other event same notCalled)
  have values := congrArg (fun response => response.bind Prod.snd) answers
  simp only [Option.bind_map] at values
  exact values

theorem clients_unwinding (a : Client) :
    Unwinding systemStep (returnedTo a) (fun event => caller event == some b) (LeavesShared b) (SameBut b) where
  silent := by
    intro st other event next hidden leaves same taken
    have called := beq_iff_eq.mp hidden
    refine ⟨(leaves_control b st next event called leaves taken).trans same.control, fun c differs => ?_⟩
    rw [step_files st next event c (fun mine => differs (Option.some.inj (mine.symm.trans called))) taken]
    exact same.files c differs
  followed := by
    intro st other event next hidden same taken
    exact step_same b st other next event same (beq_eq_false_iff_ne.mp hidden) taken
  outputs := by
    intro st other event hidden same
    rw [returnedTo, returnedTo, returned_same b st other event same (beq_eq_false_iff_ne.mp hidden)]

theorem observed_apart (a : Client) (apart : a ≠ b) :
    observed (returnedTo a) (fun event => caller event == some b) = returnedTo a := by
  funext st event
  rw [observed]
  split
  · rename_i hidden
    have called := beq_iff_eq.mp hidden
    rw [returnedTo, if_neg (fun mine => apart (Option.some.inj (mine.symm.trans called)))]
  · rfl

end Apart

end Sharing

def readBy (client : Bool) : Event Bool := .readCall client sizeofReadValue 0 false true

def bothRun : List (Event Bool) := [.openCall false 1 0 true, .openCall true 1 0 true, readBy true, readBy false]

def secondOpen : List (Event Bool) := [.openCall false 1 0 true, .openCall true 0 0 true]

def takenStep : List (Event Bool) :=
  [.openCall false 1 1 true, .openCall true 1 1 true, .stepIrq, .stepIncrement 1, readBy true]

def gateAfter (events : List (Event Bool)) : Option Bool :=
  (Events.run systemStep loadedSystem events).map (fun st => gateOpen st.board)

end CpuEmulator.Driver
