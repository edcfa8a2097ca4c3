import CpuEmulator.TraceCollector.Buffer
import CpuEmulator.Library.Fifo

set_option autoImplicit false

namespace CpuEmulator.TraceCollector

open Library

-- Chunk r holds the entries of the queue from position 256 * r on, as far as
-- there are any.
structure Stores (tb : TraceBuffer) (queue : Fifo MemAccess) : Prop where
  total : tb.totalCount = queue.entered.length
  counts : ∀ r chunk, tb.chunks[r]? = some chunk → chunk.count = min chunkSize (queue.entered.length - chunkSize * r)
  stored : ∀ r chunk, tb.chunks[r]? = some chunk → ∀ off (inside : off < chunkSize), off < chunk.count →
    queue.entered[chunkSize * r + off]? = some (chunk.entries ⟨off, inside⟩)

def Positioned (tb : TraceBuffer) (queue : Fifo MemAccess) : Prop :=
  ∃ r chunk, tb.readChunk = some r ∧ tb.chunks[r]? = some chunk ∧ tb.readOffset ≤ chunk.count ∧
    queue.left = chunkSize * r + tb.readOffset

structure Represents (tb : TraceBuffer) (queue : Fifo MemAccess) : Prop where
  stores : Stores tb queue
  filled : tb.chunks.length = (queue.entered.length + (chunkSize - 1)) / chunkSize
  writer : tb.writeChunk = if tb.chunks.length = 0 then none else some (tb.chunks.length - 1)
  reader : (tb.readChunk = none ∧ tb.chunks.length = 0) ∨ Positioned tb queue

structure Roomy (tb : TraceBuffer) (queue : Fifo MemAccess) (w : Nat) : Prop where
  stores : Stores tb queue
  last : tb.chunks.length = w + 1
  writer : tb.writeChunk = some w
  room : chunkSize * w ≤ queue.entered.length ∧ queue.entered.length < chunkSize * w + chunkSize
  reader : Positioned tb queue

theorem init_represents : Represents traceBufferInit Fifo.empty where
  stores := by
    constructor
    · rfl
    · intro r chunk found
      cases found
    · intro r chunk found
      cases found
  filled := rfl
  writer := rfl
  reader := Or.inl ⟨rfl, rfl⟩

variable (tb : TraceBuffer) (queue : Fifo MemAccess)

theorem chunk_counts (represents : Represents tb queue) (r : Nat) (chunk : TraceChunk)
    (found : tb.chunks[r]? = some chunk) :
    0 < chunk.count ∧ chunk.count ≤ chunkSize ∧ (r + 1 < tb.chunks.length → chunk.count = chunkSize) := by
  have count := represents.stores.counts r chunk found
  have filled := represents.filled
  have inside := (List.getElem?_eq_some_iff.mp found).1
  simp only [chunkSize] at count filled ⊢
  omega

theorem roomy_of_unfull (represents : Represents tb queue) (w : Nat) (chunk : TraceChunk)
    (writer : tb.writeChunk = some w) (found : tb.chunks[w]? = some chunk) (room : chunk.count ≠ chunkSize) :
    Roomy tb queue w := by
  have inside := (List.getElem?_eq_some_iff.mp found).1
  have last : tb.chunks.length = w + 1 := by
    have recorded := represents.writer
    rw [writer, if_neg (by omega), Option.some.injEq] at recorded
    omega
  have count := represents.stores.counts w chunk found
  have filled := represents.filled
  refine ⟨represents.stores, last, writer, ?_, ?_⟩
  · simp only [chunkSize] at count filled room ⊢
    omega
  · cases represents.reader with
    | inl none => omega
    | inr reader => exact reader

theorem append_chunk_first (entries : Fin chunkSize → MemAccess) (unread : tb.readChunk = none) :
    appendChunk tb entries = ⟨tb.chunks ++ [⟨entries, 0⟩], tb.totalCount, some tb.chunks.length, some tb.chunks.length, 0⟩ := by
  rw [appendChunk, unread]

theorem append_chunk_later (entries : Fin chunkSize → MemAccess) (r : Nat) (current : tb.readChunk = some r) :
    appendChunk tb entries =
      { tb with chunks := tb.chunks ++ [⟨entries, 0⟩], writeChunk := some tb.chunks.length } := by
  rw [appendChunk, current]

theorem append_chunk_writes (entries : Fin chunkSize → MemAccess) :
    (appendChunk tb entries).chunks = tb.chunks ++ [⟨entries, 0⟩] ∧
      (appendChunk tb entries).totalCount = tb.totalCount ∧
      (appendChunk tb entries).writeChunk = some tb.chunks.length := by
  simp only [appendChunk]
  split <;> exact ⟨rfl, rfl, rfl⟩

theorem appended_chunk (entries : Fin chunkSize → MemAccess) (r : Nat) (chunk : TraceChunk)
    (found : (tb.chunks ++ [⟨entries, 0⟩])[r]? = some chunk) :
    tb.chunks[r]? = some chunk ∨ r = tb.chunks.length ∧ chunk = ⟨entries, 0⟩ := by
  rw [List.getElem?_append] at found
  split at found
  · exact Or.inl found
  · rw [List.getElem?_singleton] at found
    split at found
    · exact Or.inr ⟨by omega, (Option.some.inj found).symm⟩
    · cases found

-- A chunk is added only when all chunks are full, so the new one starts at the
-- position of the next entry.
theorem full_chunks_hold_all (represents : Represents tb queue) (full : writeChunkFull tb = some true) :
    queue.entered.length = chunkSize * tb.chunks.length := by
  have filled := represents.filled
  by_cases empty : tb.chunks.length = 0
  · simp only [chunkSize] at filled ⊢
    omega
  · have writer := represents.writer
    rw [if_neg empty] at writer
    simp only [writeChunkFull, writer, Option.map_eq_some_iff, beq_iff_eq] at full
    obtain ⟨chunk, found, whole⟩ := full
    have count := represents.stores.counts _ chunk found
    simp only [chunkSize] at count whole filled ⊢
    omega

theorem roomy_of_appended (represents : Represents tb queue) (full : writeChunkFull tb = some true)
    (entries : Fin chunkSize → MemAccess) : Roomy (appendChunk tb entries) queue tb.chunks.length := by
  have entered := full_chunks_hold_all tb queue represents full
  obtain ⟨chunks, total, writer⟩ := append_chunk_writes tb entries
  refine ⟨⟨?_, ?_, ?_⟩, ?_, writer, ?_, ?_⟩
  · rw [total]
    exact represents.stores.total
  · intro r chunk found
    rw [chunks] at found
    rcases appended_chunk tb entries r chunk found with found | ⟨rfl, rfl⟩
    · exact represents.stores.counts r chunk found
    · rw [entered, Nat.sub_self]
      rfl
  · intro r chunk found off inside used
    rw [chunks] at found
    rcases appended_chunk tb entries r chunk found with found | ⟨rfl, rfl⟩
    · exact represents.stores.stored r chunk found off inside used
    · exact absurd used (Nat.not_lt_zero off)
  · rw [chunks, List.length_append, List.length_singleton]
  · simp only [chunkSize] at entered ⊢
    omega
  · cases represents.reader with
    | inl none =>
        obtain ⟨unread, empty⟩ := none
        rw [append_chunk_first tb entries unread]
        refine ⟨tb.chunks.length, ⟨entries, 0⟩, rfl, List.getElem?_concat_length, Nat.le_refl 0, ?_⟩
        have bounded := queue.bounded
        rw [entered, empty] at bounded
        dsimp only
        rw [empty]
        omega
    | inr reader =>
        obtain ⟨r, chunk, current, found, offset, left⟩ := reader
        have inside := (List.getElem?_eq_some_iff.mp found).1
        rw [append_chunk_later tb entries r current]
        exact ⟨r, chunk, current, (List.getElem?_append_left inside).trans found, offset, left⟩

theorem store_entry_writes (entry : MemAccess) (w : Nat) (chunk : TraceChunk) (writer : tb.writeChunk = some w)
    (found : tb.chunks[w]? = some chunk) (inside : chunk.count < chunkSize) :
    storeEntry tb entry = some { tb with
      chunks := tb.chunks.set w ⟨Function.update chunk.entries ⟨chunk.count, inside⟩ entry, chunk.count + 1⟩
      totalCount := tb.totalCount + 1 } := by
  simp only [storeEntry, writer, found, inside, dif_pos]

theorem written_chunk (chunks : List TraceChunk) (w : Nat) (written : TraceChunk) (last : chunks.length = w + 1) (r : Nat)
    (other : TraceChunk) (present : (chunks.set w written)[r]? = some other) :
    r = w ∧ other = written ∨ r < w ∧ chunks[r]? = some other := by
  have bound := (List.getElem?_eq_some_iff.mp present).1
  rw [List.length_set, last] at bound
  rw [List.getElem?_set] at present
  split at present
  · split at present
    · exact Or.inl ⟨by omega, (Option.some.inj present).symm⟩
    · cases present
  · exact Or.inr ⟨by omega, present⟩

section StoredEntry

variable (entry : MemAccess) (w : Nat) (chunk : TraceChunk)

theorem store_entry_stores (roomy : Roomy tb queue w) (found : tb.chunks[w]? = some chunk) (inside : chunk.count < chunkSize)
    (position : chunkSize * w + chunk.count = queue.entered.length) :
    Stores { tb with
      chunks := tb.chunks.set w ⟨Function.update chunk.entries ⟨chunk.count, inside⟩ entry, chunk.count + 1⟩
      totalCount := tb.totalCount + 1 } (queue.enqueue entry) := by
  have length : (queue.enqueue entry).entered.length = queue.entered.length + 1 := List.length_append
  refine ⟨?_, ?_, ?_⟩
  · rw [length, ← roomy.stores.total]
  · intro r other present
    rw [length]
    rcases written_chunk _ w _ roomy.last r other present with ⟨rfl, rfl⟩ | ⟨below, present⟩
    · dsimp only
      omega
    · have old := roomy.stores.counts r other present
      have full : chunkSize * r + chunkSize ≤ chunkSize * w := by
        rw [← Nat.mul_succ]
        exact Nat.mul_le_mul_left chunkSize below
      omega
  · intro r other present off bound used
    rcases written_chunk _ w _ roomy.last r other present with ⟨rfl, rfl⟩ | ⟨below, present⟩
    · by_cases newest : off = chunk.count
      · subst newest
        simp only [Function.update_self, position]
        exact List.getElem?_concat_length
      · have older : off < chunk.count := by
          dsimp only at used
          omega
        have apart : (⟨off, bound⟩ : Fin chunkSize) ≠ ⟨chunk.count, inside⟩ := fun same => newest (Fin.mk.inj same)
        simp only [Function.update_of_ne apart]
        rw [← roomy.stores.stored r chunk found off bound older]
        exact List.getElem?_append_left (by omega)
    · have kept := roomy.stores.stored r other present off bound used
      rw [← kept]
      exact List.getElem?_append_left (List.getElem?_eq_some_iff.mp kept).1

theorem store_entry_represents (roomy : Roomy tb queue w) :
    ∃ after, storeEntry tb entry = some after ∧ Represents after (queue.enqueue entry) := by
  obtain ⟨chunk, found⟩ : ∃ chunk, tb.chunks[w]? = some chunk :=
    ⟨_, List.getElem?_eq_getElem (by have last := roomy.last; omega)⟩
  have count := roomy.stores.counts w chunk found
  obtain ⟨low, high⟩ := roomy.room
  have position : chunkSize * w + chunk.count = queue.entered.length := by omega
  have inside : chunk.count < chunkSize := by omega
  refine ⟨_, store_entry_writes tb entry w chunk roomy.writer found inside,
    store_entry_stores tb queue entry w chunk roomy found inside position, ?_, ?_, ?_⟩
  · have length : (queue.enqueue entry).entered.length = queue.entered.length + 1 := List.length_append
    rw [List.length_set, length, roomy.last]
    simp only [chunkSize] at low high ⊢
    omega
  · rw [List.length_set, roomy.last, if_neg (Nat.succ_ne_zero w)]
    exact roomy.writer
  · obtain ⟨r, other, current, present, offset, left⟩ := roomy.reader
    apply Or.inr
    by_cases same : r = w
    · subst same
      obtain rfl : chunk = other := Option.some.inj (found.symm.trans present)
      refine ⟨r, _, current, List.getElem?_set_self (List.getElem?_eq_some_iff.mp found).1, ?_, left⟩
      exact Nat.le_succ_of_le offset
    · exact ⟨r, other, current, (List.getElem?_set_ne (Ne.symm same)).trans present, offset, left⟩

end StoredEntry

theorem push_represents (entry : MemAccess) (kmalloc : Option (Fin chunkSize → MemAccess))
    (represents : Represents tb queue) :
    ∃ reply, traceBufferPush tb entry kmalloc = some reply ∧
      (reply.ret = 0 ∧ Represents reply.buffer (queue.enqueue entry) ∨ reply.ret = -enomem ∧ reply.buffer = tb) := by
  simp only [traceBufferPush]
  cases full : writeChunkFull tb with
  | none =>
      exfalso
      have writer := represents.writer
      simp only [writeChunkFull] at full
      split at writer
      · rw [writer] at full
        cases full
      · rw [writer] at full
        simp only [Option.map_eq_none_iff, List.getElem?_eq_none_iff] at full
        omega
  | some needed =>
      cases needed with
      | false =>
          have writer : ∃ w chunk, tb.writeChunk = some w ∧ tb.chunks[w]? = some chunk ∧ chunk.count ≠ chunkSize := by
            simp only [writeChunkFull] at full
            split at full
            · cases full
            · rename_i w current
              obtain ⟨chunk, found, room⟩ := Option.map_eq_some_iff.mp full
              exact ⟨w, chunk, current, found, by simpa using room⟩
          obtain ⟨w, chunk, current, found, room⟩ := writer
          obtain ⟨after, stored, kept⟩ := store_entry_represents tb queue entry w
            (roomy_of_unfull tb queue represents w chunk current found room)
          exact ⟨⟨after, 0⟩, by rw [stored]; rfl, Or.inl ⟨rfl, kept⟩⟩
      | true =>
          cases kmalloc with
          | none => exact ⟨_, rfl, Or.inr ⟨rfl, rfl⟩⟩
          | some entries =>
              obtain ⟨after, stored, kept⟩ := store_entry_represents _ queue entry _
                (roomy_of_appended tb queue represents full entries)
              exact ⟨⟨after, 0⟩, by simp only [stored, Option.map_some], Or.inl ⟨rfl, kept⟩⟩

end CpuEmulator.TraceCollector
