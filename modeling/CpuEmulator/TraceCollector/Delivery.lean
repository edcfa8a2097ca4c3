import CpuEmulator.TraceCollector.Representation
import CpuEmulator.Library.Events

set_option autoImplicit false

namespace CpuEmulator.TraceCollector

open Library

section Reading

variable (tb : TraceBuffer) (queue : Fifo MemAccess)

inductive Turned : ReadTurn → Prop where
  | drained (empty : queue.pending = []) : Turned .drained
  | copying (moved : TraceBuffer) (entry : MemAccess) (here : Represents moved queue)
      (next : queue.entered[queue.left]? = some entry)
      (served : Represents { moved with readOffset := moved.readOffset + 1 } (queue.serve 1)) :
      Turned (.copying moved entry)

theorem serve_represents (represents : Represents tb queue) (left : Nat) (bounded : left ≤ queue.entered.length)
    (readChunk : Option Nat) (offset : Nat)
    (reader : Positioned { tb with readChunk := readChunk, readOffset := offset } ⟨queue.entered, left, bounded⟩) :
    Represents { tb with readChunk := readChunk, readOffset := offset } ⟨queue.entered, left, bounded⟩ where
  stores := ⟨represents.stores.total, represents.stores.counts, represents.stores.stored⟩
  filled := represents.filled
  writer := represents.writer
  reader := Or.inr reader

theorem entry_at_turned (r : Nat) (chunk : TraceChunk) (represents : Represents tb queue)
    (current : tb.readChunk = some r) (found : tb.chunks[r]? = some chunk) (unread : tb.readOffset < chunk.count)
    (left : queue.left = chunkSize * r + tb.readOffset) : Turned queue (entryAt tb chunk) := by
  have size := (chunk_counts tb queue represents r chunk found).2.1
  have inside : tb.readOffset < chunkSize := by omega
  have next := represents.stores.stored r chunk found tb.readOffset inside unread
  have waiting := (List.getElem?_eq_some_iff.mp next).1
  rw [entryAt, dif_pos inside]
  refine .copying tb _ represents (by rw [left, next]) ?_
  have advanced : queue.serve 1 = ⟨queue.entered, queue.left + 1, by omega⟩ := by
    simp only [Fifo.serve, Fifo.mk.injEq, true_and]
    omega
  rw [advanced]
  exact serve_represents tb queue represents _ _ tb.readChunk _
    ⟨r, chunk, current, found, unread, by dsimp only; omega⟩

theorem read_turn_turned (represents : Represents tb queue) : Turned queue (readTurn tb) := by
  cases represents.reader with
  | inl unread =>
      obtain ⟨unread, empty⟩ := unread
      rw [readTurn, unread]
      have filled := represents.filled
      apply Turned.drained
      rw [← List.length_eq_zero_iff, Fifo.pending_length]
      simp only [chunkSize] at filled
      omega
  | inr reader =>
      obtain ⟨r, chunk, current, found, offset, left⟩ := reader
      simp only [readTurn, current, found]
      obtain ⟨_, _, full⟩ := chunk_counts tb queue represents r chunk found
      have count := represents.stores.counts r chunk found
      split
      · rename_i exhausted
        cases following : tb.chunks[r + 1]? with
        | none =>
            have last := List.getElem?_eq_none_iff.mp following
            have filled := represents.filled
            apply Turned.drained
            rw [← List.length_eq_zero_iff, Fifo.pending_length]
            simp only [chunkSize] at filled count left
            omega
        | some next =>
            have inside := (List.getElem?_eq_some_iff.mp following).1
            have whole := full inside
            have start : queue.left = chunkSize * (r + 1) := by
              rw [Nat.mul_succ]
              omega
            have kept := serve_represents tb queue represents queue.left queue.bounded (some (r + 1)) 0
              ⟨r + 1, next, rfl, following, Nat.zero_le _, start⟩
            exact entry_at_turned _ queue (r + 1) next kept rfl following
              (chunk_counts _ queue kept (r + 1) next following).1 start
      · rename_i unread
        exact entry_at_turned tb queue r chunk represents current found (by omega) left

theorem pending_take_succ (entry : MemAccess) (k : Nat) (next : queue.entered[queue.left]? = some entry) :
    queue.pending.take (k + 1) = entry :: (queue.serve 1).pending.take k := by
  have split : queue.pending = entry :: (queue.serve 1).pending := by
    obtain ⟨inside, rfl⟩ := List.getElem?_eq_some_iff.mp next
    rw [Fifo.pending_serve, Fifo.pending, List.drop_drop]
    exact List.drop_eq_getElem_cons inside
  rw [split, List.take_succ_cons]

-- The loop hands over the next k entries of the queue. It stops short of the
-- number asked for at the end of the queue or at a copy that failed.
structure Reads (copyFault : Nat → Bool) (remaining : Nat) (copied : List MemAccess) (reply : ReadReply) (k : Nat) :
    Prop where
  represents : Represents reply.buffer (queue.serve k)
  available : k ≤ queue.pending.length
  copies : reply.copied = copied ++ queue.pending.take k
  ret : reply.ret = (copied.length + k : Nat) * sizeofMemAccess ∨ reply.ret = -efault ∧ copied.length + k = 0
  short : k < remaining → queue.pending.length = k ∨ copyFault (copied.length + k) = true

theorem reads_nothing (copyFault : Nat → Bool) (remaining : Nat) (copied : List MemAccess) (reply : ReadReply)
    (represents : Represents reply.buffer queue) (same : reply.copied = copied)
    (ret : reply.ret = copied.length * sizeofMemAccess ∨ reply.ret = -efault ∧ copied.length = 0)
    (short : 0 < remaining → queue.pending.length = 0 ∨ copyFault copied.length = true) :
    Reads queue copyFault remaining copied reply 0 := by
  refine ⟨?_, Nat.zero_le _, ?_, ret, short⟩
  · rw [Fifo.serve_zero]
    exact represents
  · rw [List.take_zero, List.append_nil, same]

theorem read_loop_reads (copyFault : Nat → Bool) (remaining : Nat) (copied : List MemAccess)
    (represents : Represents tb queue) :
    ∃ reply k, readLoop copyFault remaining tb copied = some reply ∧
      Reads queue copyFault remaining copied reply k := by
  induction remaining generalizing tb queue copied with
  | zero =>
      exact ⟨_, 0, rfl, reads_nothing queue copyFault 0 copied _ represents rfl (Or.inl rfl) fun more =>
        absurd more (Nat.lt_irrefl 0)⟩
  | succ remaining ih =>
      have turned := read_turn_turned tb queue represents
      rw [readLoop]
      generalize readTurn tb = turn at turned ⊢
      cases turned with
      | drained empty =>
          exact ⟨_, 0, rfl, reads_nothing queue copyFault _ copied _ represents rfl (Or.inl rfl) fun _ =>
            Or.inl (by rw [empty]; rfl)⟩
      | copying moved entry here next served =>
          dsimp only
          cases failed : copyFault copied.length with
          | true =>
              refine ⟨_, 0, rfl, reads_nothing queue copyFault _ copied _ here rfl ?_ fun _ => Or.inr failed⟩
              by_cases some : 0 < copied.length
              · exact Or.inl (if_pos some)
              · exact Or.inr ⟨if_neg some, by omega⟩
          | false =>
              obtain ⟨reply, k, ran, reads⟩ := ih _ (queue.serve 1) (copied ++ [entry]) served
              have length : (copied ++ [entry]).length = copied.length + 1 := List.length_append
              have available := reads.available
              have waiting := (List.getElem?_eq_some_iff.mp next).1
              rw [Fifo.pending_serve, List.length_drop] at available
              have fewer := Fifo.pending_length queue
              refine ⟨reply, k + 1, ran, ?_, ?_, ?_, ?_, ?_⟩
              · rw [Nat.add_comm k 1, ← Fifo.serve_add]
                exact reads.represents
              · omega
              · rw [reads.copies, pending_take_succ queue entry k next, List.append_assoc, List.singleton_append]
              · have ret := reads.ret
                rw [length, Nat.add_right_comm] at ret
                exact ret
              · intro more
                have short := reads.short (by omega)
                rw [Fifo.pending_serve, List.length_drop, length, Nat.add_right_comm] at short
                cases short with
                | inl drained => exact Or.inl (by omega)
                | inr failed => exact Or.inr failed

end Reading

def reported (reply : ReadReply) : List MemAccess := reply.copied.take (reply.ret.toNat / sizeofMemAccess)

theorem reads_reported (queue : Fifo MemAccess) (copyFault : Nat → Bool) (remaining : Nat) (reply : ReadReply) (k : Nat)
    (reads : Reads queue copyFault remaining [] reply k) :
    reported reply = queue.pending.take k ∧ reply.ret.toNat / sizeofMemAccess = k := by
  have copies := reads.copies
  rw [List.nil_append] at copies
  have counted : reply.ret.toNat / sizeofMemAccess = k := by
    rcases reads.ret with ret | ⟨ret, none⟩
    · rw [ret]
      simp only [List.length_nil, sizeofMemAccess]
      omega
    · rw [ret]
      simp only [List.length_nil, efault, sizeofMemAccess] at none ⊢
      omega
  refine ⟨?_, counted⟩
  rw [reported, counted, copies, List.take_take, Nat.min_self]

inductive TraceCall where
  | write (len : Nat) (copyFault : Bool) (entry : MemAccess) (kmalloc : Option (Fin chunkSize → MemAccess))
  | read (len : Nat) (copyFault : Nat → Bool)

-- The device with the record of what its calls returned: the entries of the
-- successful writes and the entries that reads reported, both in call order.
structure Session where
  buffer : TraceBuffer
  accepted : List MemAccess
  delivered : List MemAccess

def loaded : Session := ⟨traceBufferInit, [], []⟩

def callStep (session : Session) : TraceCall → Option Session
  | .write len copyFault entry kmalloc =>
      (traceWrite session.buffer len copyFault entry kmalloc).map fun reply =>
        if 0 ≤ reply.ret then ⟨reply.buffer, session.accepted ++ [entry], session.delivered⟩
        else { session with buffer := reply.buffer }
  | .read len copyFault =>
      (traceRead session.buffer len copyFault).map fun reply =>
        ⟨reply.buffer, session.accepted, session.delivered ++ reported reply⟩

def Consistent (session : Session) : Prop :=
  ∃ queue : Fifo MemAccess, Represents session.buffer queue ∧ queue.entered = session.accepted ∧
    queue.served = session.delivered

theorem loaded_consistent : Consistent loaded := ⟨Fifo.empty, init_represents, rfl, rfl⟩

theorem write_outcome (tb : TraceBuffer) (queue : Fifo MemAccess) (len : Nat) (copyFault : Bool)
    (entry : MemAccess) (kmalloc : Option (Fin chunkSize → MemAccess)) (represents : Represents tb queue) :
    ∃ reply, traceWrite tb len copyFault entry kmalloc = some reply ∧
      (0 ≤ reply.ret ∧ Represents reply.buffer (queue.enqueue entry) ∨ reply.ret < 0 ∧ reply.buffer = tb) := by
  simp only [traceWrite]
  split
  · exact ⟨⟨tb, -einval⟩, rfl, Or.inr ⟨Int.negSucc_lt_zero 21, rfl⟩⟩
  · split
    · exact ⟨⟨tb, -efault⟩, rfl, Or.inr ⟨Int.negSucc_lt_zero 13, rfl⟩⟩
    · obtain ⟨pushed, ran, outcome⟩ := push_represents tb queue entry kmalloc represents
      rw [ran, Option.map_some]
      rcases outcome with ⟨ret, grown⟩ | ⟨ret, same⟩
      · rw [if_neg (not_not_intro ret)]
        exact ⟨_, rfl, Or.inl ⟨Int.natCast_nonneg _, grown⟩⟩
      · have failed : pushed.ret < 0 := by
          rw [ret]
          decide
        rw [if_pos (Int.ne_of_lt failed)]
        exact ⟨pushed, rfl, Or.inr ⟨failed, same⟩⟩

theorem write_consistent (session : Session) (len : Nat) (copyFault : Bool) (entry : MemAccess)
    (kmalloc : Option (Fin chunkSize → MemAccess)) (consistent : Consistent session) :
    ∃ next, callStep session (.write len copyFault entry kmalloc) = some next ∧ Consistent next := by
  obtain ⟨queue, represents, entered, served⟩ := consistent
  obtain ⟨reply, ran, outcome⟩ := write_outcome session.buffer queue len copyFault entry kmalloc represents
  simp only [callStep, ran, Option.map_some]
  rcases outcome with ⟨ok, grown⟩ | ⟨failed, same⟩
  · rw [if_pos ok]
    refine ⟨_, rfl, queue.enqueue entry, grown, ?_, ?_⟩
    · rw [← entered]
      rfl
    · rw [Fifo.served_enqueue, served]
  · rw [if_neg (Int.not_le.mpr failed), same]
    exact ⟨_, rfl, queue, represents, entered, served⟩

theorem read_consistent (session : Session) (len : Nat) (copyFault : Nat → Bool) (consistent : Consistent session) :
    ∃ next, callStep session (.read len copyFault) = some next ∧ Consistent next := by
  obtain ⟨queue, represents, entered, served⟩ := consistent
  simp only [callStep, traceRead]
  split
  · refine ⟨_, rfl, queue, represents, entered, ?_⟩
    simp only [served, reported, List.take_nil, List.append_nil]
  · obtain ⟨reply, k, ran, reads⟩ :=
      read_loop_reads session.buffer queue copyFault (len / sizeofMemAccess) [] represents
    rw [ran, Option.map_some]
    refine ⟨_, rfl, queue.serve k, reads.represents, entered, ?_⟩
    rw [Fifo.served_serve, served, (reads_reported queue copyFault _ reply k reads).1]

theorem call_consistent (session : Session) (call : TraceCall) (consistent : Consistent session) :
    ∃ next, callStep session call = some next ∧ Consistent next := by
  cases call with
  | write len copyFault entry kmalloc => exact write_consistent session len copyFault entry kmalloc consistent
  | read len copyFault => exact read_consistent session len copyFault consistent

theorem session_consistent (calls : List TraceCall) :
    ∃ session, Events.run callStep loaded calls = some session ∧ Consistent session := by
  apply Events.run_total callStep (fun _ _ => True) Consistent
  · intro session call consistent _
    exact call_consistent session call consistent
  · exact loaded_consistent
  · exact Events.along_trivial callStep loaded calls

theorem short_read_drains (session : Session) (consistent : Consistent session) (len : Nat) (copyFault : Nat → Bool)
    (reply : ReadReply) (asked : sizeofMemAccess ≤ len) (ran : traceRead session.buffer len copyFault = some reply)
    (copied : ∀ i, i ≤ reply.ret.toNat / sizeofMemAccess → copyFault i = false)
    (short : reply.ret.toNat / sizeofMemAccess < len / sizeofMemAccess) :
    session.delivered ++ reported reply = session.accepted := by
  obtain ⟨queue, represents, entered, served⟩ := consistent
  obtain ⟨other, k, again, reads⟩ :=
    read_loop_reads session.buffer queue copyFault (len / sizeofMemAccess) [] represents
  rw [traceRead, if_neg (by omega), again] at ran
  obtain rfl := Option.some.inj ran
  obtain ⟨same, counted⟩ := reads_reported queue copyFault _ other k reads
  rw [counted] at copied short
  have drained : queue.pending.length = k := by
    rcases reads.short short with drained | failed
    · exact drained
    · rw [List.length_nil, Nat.zero_add, copied k (Nat.le_refl k)] at failed
      cases failed
  rw [same, ← served, ← drained, List.take_length, ← entered]
  exact List.take_append_drop _ _

theorem failed_write_keeps (tb : TraceBuffer) (queue : Fifo MemAccess) (len : Nat) (copyFault : Bool)
    (entry : MemAccess) (kmalloc : Option (Fin chunkSize → MemAccess)) (reply : WriteReply)
    (represents : Represents tb queue) (ran : traceWrite tb len copyFault entry kmalloc = some reply)
    (failed : reply.ret < 0) : reply.buffer = tb := by
  obtain ⟨again, same, outcome⟩ := write_outcome tb queue len copyFault entry kmalloc represents
  obtain rfl : again = reply := Option.some.inj (same.symm.trans ran)
  rcases outcome with ⟨ok, _⟩ | ⟨_, kept⟩
  · exact absurd ok (Int.not_le.mpr failed)
  · exact kept

-- From module load on, whatever the calls, their allocations and their copies do.
theorem trace_collector_is_fifo (calls : List TraceCall) :
    ∃ session, Events.run callStep loaded calls = some session ∧
      session.delivered <+: session.accepted ∧
      session.buffer.totalCount = session.accepted.length ∧
      (∀ r chunk, session.buffer.chunks[r]? = some chunk →
        chunk.count ≤ chunkSize ∧ (r + 1 < session.buffer.chunks.length → chunk.count = chunkSize)) ∧
      (∀ len copyFault entry kmalloc reply, traceWrite session.buffer len copyFault entry kmalloc = some reply →
        reply.ret < 0 → reply.buffer = session.buffer) ∧
      (∀ len copyFault reply, sizeofMemAccess ≤ len → traceRead session.buffer len copyFault = some reply →
        (∀ i, i ≤ reply.ret.toNat / sizeofMemAccess → copyFault i = false) →
        reply.ret.toNat / sizeofMemAccess < len / sizeofMemAccess →
        session.delivered ++ reported reply = session.accepted) := by
  obtain ⟨session, ran, consistent⟩ := session_consistent calls
  obtain ⟨queue, represents, entered, served⟩ := consistent
  refine ⟨session, ran, ?_, ?_, ?_, ?_, ?_⟩
  · rw [← entered, ← served]
    exact queue.served_prefix
  · rw [← entered]
    exact represents.stores.total
  · intro r chunk found
    exact (chunk_counts session.buffer queue represents r chunk found).2
  · intro len copyFault entry kmalloc reply wrote failed
    exact failed_write_keeps session.buffer queue len copyFault entry kmalloc reply represents wrote failed
  · intro len copyFault reply asked read copied short
    exact short_read_drains session ⟨queue, represents, entered, served⟩ len copyFault reply asked read copied short

end CpuEmulator.TraceCollector
