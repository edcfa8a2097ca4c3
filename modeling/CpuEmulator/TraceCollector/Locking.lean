import CpuEmulator.TraceCollector.Delivery
import CpuEmulator.Library.Mutex

set_option autoImplicit false

namespace CpuEmulator.TraceCollector

open Library Mutex

-- Where trace_write and trace_read stand while they hold g_buffer.lock: before the
-- test of the write chunk, before kmalloc, before the store; at the head of the
-- loop and before its copy_to_user.
inductive Task where
  | push (entry : MemAccess) (kmalloc : Option (Fin chunkSize → MemAccess))
  | allocate (entry : MemAccess) (kmalloc : Option (Fin chunkSize → MemAccess))
  | store (entry : MemAccess)
  | scan (copyFault : Nat → Bool) (remaining : Nat) (copied : List MemAccess)
  | copy (copyFault : Nat → Bool) (remaining : Nat) (copied : List MemAccess) (entry : MemAccess)

structure Answer where
  ret : Int
  copied : List MemAccess

def enterCall : TraceCall → Task ⊕ Answer
  | .write len copyFault entry kmalloc =>
      if len < sizeofMemAccess then .inr ⟨-einval, []⟩
      else if copyFault then .inr ⟨-efault, []⟩
      else .inl (.push entry kmalloc)
  | .read len copyFault =>
      if len < sizeofMemAccess then .inr ⟨-einval, []⟩ else .inl (.scan copyFault (len / sizeofMemAccess) [])

def turnTask (tb : TraceBuffer) : Task → Option (TraceBuffer × (Task ⊕ Answer))
  | .push entry kmalloc =>
      (writeChunkFull tb).map fun full => (tb, .inl (if full then .allocate entry kmalloc else .store entry))
  | .allocate entry kmalloc =>
      match kmalloc with
      | none => some (tb, .inr ⟨-enomem, []⟩)
      | some entries => some (appendChunk tb entries, .inl (.store entry))
  | .store entry => (storeEntry tb entry).map fun stored => (stored, .inr ⟨sizeofMemAccess, []⟩)
  | .scan _ 0 copied => some (tb, .inr ⟨copied.length * sizeofMemAccess, copied⟩)
  | .scan copyFault (remaining + 1) copied =>
      match readTurn tb with
      | .fault => none
      | .drained => some (tb, .inr ⟨copied.length * sizeofMemAccess, copied⟩)
      | .copying moved entry => some (moved, .inl (.copy copyFault remaining copied entry))
  | .copy copyFault remaining copied entry =>
      if copyFault copied.length then
        some (tb, .inr ⟨if 0 < copied.length then copied.length * sizeofMemAccess else -efault, copied⟩)
      else some ({ tb with readOffset := tb.readOffset + 1 }, .inl (.scan copyFault remaining (copied ++ [entry])))

def lockedCode : Code TraceBuffer TraceCall Task Answer := ⟨enterCall, turnTask⟩

section Alone

variable (tb : TraceBuffer)

theorem store_ends (entry : MemAccess) (stored : TraceBuffer) (ran : storeEntry tb entry = some stored) :
    Ends lockedCode (tb, .store entry) stored ⟨sizeofMemAccess, []⟩ := by
  apply Ends.last
  show turnTask tb (.store entry) = _
  rw [turnTask, ran, Option.map_some]

theorem write_performs (len : Nat) (copyFault : Bool) (entry : MemAccess) (kmalloc : Option (Fin chunkSize → MemAccess))
    (reply : WriteReply) (ran : traceWrite tb len copyFault entry kmalloc = some reply) :
    Performs lockedCode tb (.write len copyFault entry kmalloc) reply.buffer ⟨reply.ret, []⟩ := by
  rw [traceWrite] at ran
  simp only [Performs, lockedCode, enterCall]
  split at ran
  · rename_i short
    obtain rfl := Option.some.inj ran
    rw [if_pos short]
    exact ⟨rfl, rfl⟩
  · rename_i long
    rw [if_neg long]
    split at ran
    · rename_i faulted
      obtain rfl := Option.some.inj ran
      rw [if_pos faulted]
      exact ⟨rfl, rfl⟩
    · rename_i copied
      rw [if_neg copied]
      obtain ⟨pushed, push, rfl⟩ := Option.map_eq_some_iff.mp ran
      simp only [traceBufferPush] at push
      have probed (full : Bool) (test : writeChunkFull tb = some full) :
          Goes lockedCode (tb, .push entry kmalloc) (tb, if full then .allocate entry kmalloc else .store entry) := by
        show turnTask tb (.push entry kmalloc) = _
        rw [turnTask, test, Option.map_some]
      split at push
      · cases push
      · rename_i room
        obtain ⟨stored, store, rfl⟩ := Option.map_eq_some_iff.mp push
        exact .more (probed false room) (store_ends tb entry stored store)
      · rename_i full
        refine .more (probed true full) ?_
        split at push
        · obtain rfl := Option.some.inj push
          exact .last rfl
        · rename_i entries
          obtain ⟨stored, store, rfl⟩ := Option.map_eq_some_iff.mp push
          have grown : Goes lockedCode (tb, .allocate entry (some entries)) (appendChunk tb entries, .store entry) := rfl
          exact .more grown (store_ends (appendChunk tb entries) entry stored store)

theorem read_loop_ends (copyFault : Nat → Bool) (remaining : Nat) (copied : List MemAccess) (reply : ReadReply)
    (ran : readLoop copyFault remaining tb copied = some reply) :
    Ends lockedCode (tb, .scan copyFault remaining copied) reply.buffer ⟨reply.ret, reply.copied⟩ := by
  induction remaining generalizing tb copied with
  | zero =>
      obtain rfl := Option.some.inj ran
      exact .last rfl
  | succ remaining ih =>
      rw [readLoop] at ran
      split at ran
      · cases ran
      · rename_i drained
        obtain rfl := Option.some.inj ran
        apply Ends.last
        show turnTask tb (.scan copyFault (remaining + 1) copied) = _
        rw [turnTask, drained]
      · rename_i moved entry turned
        have found : Goes lockedCode (tb, .scan copyFault (remaining + 1) copied)
            (moved, .copy copyFault remaining copied entry) := by
          show turnTask tb (.scan copyFault (remaining + 1) copied) = _
          rw [turnTask, turned]
        refine .more found ?_
        split at ran
        · rename_i faulted
          obtain rfl := Option.some.inj ran
          apply Ends.last
          exact if_pos faulted
        · rename_i intact
          have handed : Goes lockedCode (moved, .copy copyFault remaining copied entry)
              ({ moved with readOffset := moved.readOffset + 1 }, .scan copyFault remaining (copied ++ [entry])) :=
            if_neg intact
          exact .more handed (ih _ _ ran)

theorem read_performs (len : Nat) (copyFault : Nat → Bool) (reply : ReadReply) (ran : traceRead tb len copyFault = some reply) :
    Performs lockedCode tb (.read len copyFault) reply.buffer ⟨reply.ret, reply.copied⟩ := by
  rw [traceRead] at ran
  simp only [Performs, lockedCode, enterCall]
  split at ran
  · rename_i short
    obtain rfl := Option.some.inj ran
    rw [if_pos short]
    exact ⟨rfl, rfl⟩
  · rename_i long
    rw [if_neg long]
    exact read_loop_ends tb copyFault _ [] reply ran

end Alone

section Locked

variable {Client : Type}

def acceptedBy (done : Done Client TraceCall Answer) : List MemAccess :=
  match done.call with
  | .write _ _ entry _ => if 0 ≤ done.result.ret then [entry] else []
  | .read _ _ => []

def deliveredBy (done : Done Client TraceCall Answer) : List MemAccess :=
  match done.call with
  | .write _ _ _ _ => []
  | .read _ _ => done.result.copied.take (done.result.ret.toNat / sizeofMemAccess)

theorem call_performed (session : Session) (consistent : Consistent session) (done : Done Client TraceCall Answer)
    (after : TraceBuffer) (performs : Performs lockedCode session.buffer done.call after done.result) :
    ∃ next, callStep session done.call = some next ∧ Consistent next ∧ next.buffer = after ∧
      next.accepted = session.accepted ++ acceptedBy done ∧ next.delivered = session.delivered ++ deliveredBy done := by
  obtain ⟨next, stepped, kept⟩ := call_consistent session done.call consistent
  refine ⟨next, stepped, kept, ?_⟩
  rw [acceptedBy, deliveredBy]
  cases called : done.call with
  | write len copyFault entry kmalloc =>
      rw [called] at stepped performs
      obtain ⟨reply, wrote, rfl⟩ := Option.map_eq_some_iff.mp stepped
      obtain ⟨buffer, result⟩ :=
        performs_unique lockedCode session.buffer _ _ _ _ _ performs (write_performs session.buffer _ _ _ _ reply wrote)
      rw [result, buffer]
      dsimp only
      split
      · exact ⟨rfl, rfl, (List.append_nil _).symm⟩
      · exact ⟨rfl, (List.append_nil _).symm, (List.append_nil _).symm⟩
  | read len copyFault =>
      rw [called] at stepped performs
      obtain ⟨reply, ran, rfl⟩ := Option.map_eq_some_iff.mp stepped
      obtain ⟨buffer, result⟩ :=
        performs_unique lockedCode session.buffer _ _ _ _ _ performs (read_performs session.buffer _ _ reply ran)
      rw [result, buffer]
      exact ⟨rfl, (List.append_nil _).symm, rfl⟩

theorem locked_completes : Completes lockedCode (fun tb => ∃ queue, Represents tb queue) := by
  rintro tb call ⟨queue, represents⟩
  cases call with
  | write len copyFault entry kmalloc =>
      obtain ⟨reply, wrote, outcome⟩ := write_outcome tb queue len copyFault entry kmalloc represents
      refine ⟨reply.buffer, _, write_performs tb len copyFault entry kmalloc reply wrote, ?_⟩
      rcases outcome with ⟨_, grown⟩ | ⟨_, same⟩
      · exact ⟨_, grown⟩
      · rw [same]
        exact ⟨queue, represents⟩
  | read len copyFault =>
      by_cases short : len < sizeofMemAccess
      · exact ⟨tb, _, read_performs tb len copyFault _ (if_pos short), queue, represents⟩
      · obtain ⟨reply, k, ran, reads⟩ := read_loop_reads tb queue copyFault (len / sizeofMemAccess) [] represents
        refine ⟨reply.buffer, _, read_performs tb len copyFault reply ?_, _, reads.represents⟩
        rw [traceRead, if_neg short]
        exact ran

theorem serial_session (done : List (Done Client TraceCall Answer)) (tb : TraceBuffer)
    (serial : Serial lockedCode traceBufferInit done tb) :
    ∃ session, Events.run callStep loaded (done.map Done.call) = some session ∧ Consistent session ∧
      session.buffer = tb ∧ session.accepted = done.flatMap acceptedBy ∧ session.delivered = done.flatMap deliveredBy := by
  induction serial with
  | start => exact ⟨loaded, rfl, loaded_consistent, rfl, rfl, rfl⟩
  | @next earlier data after done _ performs ih =>
      obtain ⟨session, ran, consistent, rfl, accepted, delivered⟩ := ih
      obtain ⟨next, stepped, kept, same, more, further⟩ := call_performed session consistent done after performs
      refine ⟨next, ?_, kept, same, ?_, ?_⟩
      · rw [List.map_append, List.map_singleton, Events.run_snoc, ran, Option.bind_some, stepped]
      · rw [more, accepted, List.flatMap_append, List.flatMap_singleton]
      · rw [further, delivered, List.flatMap_append, List.flatMap_singleton]

variable [DecidableEq Client]

-- Clients that stop and go anywhere, inside the lock and out, see the calls happen
-- one after the other.
theorem locked_calls_are_serial (moves : List (Move Client TraceCall)) (st : State Client TraceBuffer TraceCall Task Answer)
    (ran : Events.run (step lockedCode) (unlocked traceBufferInit) moves = some st) :
    ∃ session, Events.run callStep loaded (st.finished.map Done.call) = some session ∧
      st.finished.flatMap acceptedBy = session.accepted ∧ st.finished.flatMap deliveredBy = session.delivered ∧
      st.finished.flatMap deliveredBy <+: st.finished.flatMap acceptedBy ∧
      (st.holder = none → st.data = session.buffer) ∧
      (∀ who, (st.place who).holds = true → st.holder = some who) ∧
      (∀ who, st.holder = some who → ∃ rest released, (∀ move ∈ rest, move.who = who) ∧
        Events.run (step lockedCode) st rest = some released ∧ released.holder = none) := by
  obtain ⟨base, kept⟩ := run_kept lockedCode traceBufferInit st moves ran
  obtain ⟨session, serial, ⟨queue, _, entered, served⟩, same, accepted, delivered⟩ :=
    serial_session st.finished base kept.serial
  refine ⟨session, serial, accepted.symm, delivered.symm, ?_, ?_, ?_, ?_⟩
  · rw [← accepted, ← delivered, ← entered, ← served]
    exact queue.served_prefix
  · intro nobody
    rw [same]
    exact held_free lockedCode base st.data st.holder st.place kept.held nobody
  · intro who holds
    exact (held_by lockedCode base st.data st.holder st.place who kept.held holds).1
  · intro who holds
    exact holder_releases lockedCode _ locked_completes traceBufferInit base ⟨Fifo.empty, init_represents⟩ st kept who holds

def overlapping : List (Move Bool TraceCall) :=
  [.call false (.write 16 false ⟨5, 1⟩ (some fun _ => ⟨0, 0⟩)), .lock false, .turn false, .call true (.read 40 fun _ => false),
    .turn false, .turn false, .unlock false, .lock true, .turn true, .turn true, .turn true, .unlock true]

theorem locked_calls_are_serial_overlapping :
    ∃ st, Events.run (step lockedCode) (unlocked traceBufferInit) overlapping = some st ∧
      st.finished.flatMap deliveredBy = [⟨5, 1⟩] ∧
      ∃ session, Events.run callStep loaded (st.finished.map Done.call) = some session ∧
        st.finished.flatMap deliveredBy = session.delivered := by
  have got : (Events.run (step lockedCode) (unlocked traceBufferInit) overlapping).map
      (fun st => st.finished.flatMap deliveredBy) = some [⟨5, 1⟩] := by decide +kernel
  obtain ⟨st, ran, delivered⟩ := Option.map_eq_some_iff.mp got
  obtain ⟨session, serial, _, same, _⟩ := locked_calls_are_serial overlapping st ran
  exact ⟨st, ran, delivered, session, serial, same⟩

end Locked

end CpuEmulator.TraceCollector
