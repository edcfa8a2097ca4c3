import CpuEmulator.TraceCollector.Delivery
import CpuEmulator.Library.ByteStore

set_option autoImplicit false

namespace CpuEmulator.Cache

open Library TraceCollector

def readBatchSize : Nat := 256
def initialTraceCapacity : Nat := 1024

-- What read(fd, buffer, sizeof(buffer)) does: its result and the records it put
-- at the start of the buffer.
structure BatchRead (σ : Type) where
  source : σ
  ret : Int
  copied : List MemAccess

-- The outcomes of malloc, open and the reallocs of the loop in their order, and
-- what the two arrays hold before anything is written to them. A realloc that
-- succeeds is below PTRDIFF_MAX bytes, so the products with sizeof(mem_access)
-- do not wrap.
structure LoadEnv where
  malloc : Bool
  fd : Int
  realloc : Nat → Bool
  heap : Nat → MemAccess
  stack : Nat → MemAccess

structure Loading where
  capacity : Nat
  count : Nat
  traces : Nat → MemAccess
  buffer : Nat → MemAccess
  reallocs : Nat

-- The returned pointer, none for NULL, and *out_count.
structure Loaded where
  traces : Option (Nat → MemAccess)
  outCount : Nat

def Loaded.records (result : Loaded) : List MemAccess :=
  result.traces.elim [] (fun traces => (List.range result.outCount).map traces)

def fillBuffer (st : Loading) (copied : List MemAccess) : Loading :=
  { st with buffer := writeCells st.buffer 0 (fun i => copied.getD i ⟨0, 0⟩) copied.length }

def expand (env : LoadEnv) (st : Loading) (entries : Nat) : Option Loading :=
  if st.capacity < st.count + entries then
    if env.realloc st.reallocs then some { st with capacity := st.capacity * 2, reallocs := st.reallocs + 1 } else none
  else some st

def copyBatch (st : Loading) (entries : Nat) : Option Loading :=
  if entries ≤ readBatchSize ∧ st.count + entries ≤ st.capacity then
    some { st with traces := writeCells st.traces st.count st.buffer entries, count := st.count + entries }
  else none

-- The read loop. The final realloc keeps the first count records whether or not
-- it succeeds.
def loadLoop {σ : Type} (read : σ → Option (BatchRead σ)) (env : LoadEnv) : Nat → σ → Loading → Option Loaded
  | 0, _, _ => none
  | fuel + 1, source, st =>
      match read source with
      | none => none
      | some batch =>
          let filled := fillBuffer st batch.copied
          if batch.ret ≤ 0 then some ⟨some filled.traces, filled.count⟩
          else
            let entries := batch.ret.toNat / sizeofMemAccess
            match expand env filled entries with
            | none => some ⟨some filled.traces, filled.count⟩
            | some expanded =>
                match copyBatch expanded entries with
                | none => none
                | some next => loadLoop read env fuel batch.source next

def loadTraces {σ : Type} (read : σ → Option (BatchRead σ)) (env : LoadEnv) (fuel : Nat) (source : σ) : Option Loaded :=
  if !env.malloc then some ⟨none, 0⟩
  else if env.fd < 0 then some ⟨none, 0⟩
  else loadLoop read env fuel source ⟨initialTraceCapacity, 0, env.heap, env.stack, 0⟩

-- The trace collector as the reader of its device; the buffer is a local array,
-- so its copies do not fail.
def collectorRead (tb : TraceBuffer) : Option (BatchRead TraceBuffer) :=
  (traceRead tb (readBatchSize * sizeofMemAccess) (fun _ => false)).map fun reply => ⟨reply.buffer, reply.ret, reply.copied⟩

-- A reader that hands over whole records, some but at most a buffer full at a
-- time, and then reports the end.
inductive Delivers {σ : Type} (read : σ → Option (BatchRead σ)) : σ → List (List MemAccess) → Prop where
  | ended (source after : σ) (zero : read source = some ⟨after, 0, []⟩) : Delivers read source []
  | batch (source after : σ) (records : List MemAccess) (rest : List (List MemAccess)) (positive : 0 < records.length)
      (short : records.length ≤ readBatchSize)
      (got : read source = some ⟨after, records.length * sizeofMemAccess, records⟩) (later : Delivers read after rest) :
      Delivers read source (records :: rest)

structure Taken (st : Loading) (taken : List MemAccess) : Prop where
  count : st.count = taken.length
  room : st.count ≤ st.capacity
  doubled : readBatchSize ≤ st.capacity
  cells : ∀ i, i < st.count → taken[i]? = some (st.traces i)

theorem taken_records (st : Loading) (taken : List MemAccess) (holds : Taken st taken) :
    Loaded.records ⟨some st.traces, st.count⟩ = taken := by
  apply List.ext_getElem?
  intro i
  rw [Loaded.records, Option.elim_some, List.getElem?_map]
  dsimp only
  by_cases below : i < st.count
  · rw [List.getElem?_range below, Option.map_some, holds.cells i below]
  · rw [List.getElem?_eq_none (by rw [List.length_range]; omega), List.getElem?_eq_none (by rw [← holds.count]; omega)]
    rfl

theorem fill_taken (st : Loading) (taken copied : List MemAccess) (holds : Taken st taken) :
    Taken (fillBuffer st copied) taken ∧ ∀ i, i < copied.length → copied[i]? = some ((fillBuffer st copied).buffer i) := by
  refine ⟨⟨holds.count, holds.room, holds.doubled, holds.cells⟩, fun i below => ?_⟩
  dsimp only [fillBuffer]
  rw [write_cells_apply, if_pos ⟨Nat.zero_le i, by omega⟩, Nat.sub_zero, List.getD_eq_getElem?_getD,
    List.getElem?_eq_getElem below, Option.getD_some]

theorem expand_taken (env : LoadEnv) (st : Loading) (taken : List MemAccess) (entries : Nat) (holds : Taken st taken)
    (short : entries ≤ readBatchSize) :
    (expand env st entries = none ∧ env.realloc st.reallocs = false) ∨
      ∃ expanded, expand env st entries = some expanded ∧ expanded.buffer = st.buffer ∧ Taken expanded taken ∧
        expanded.count + entries ≤ expanded.capacity := by
  have room := holds.room
  have doubled := holds.doubled
  simp only [expand]
  split
  · cases env.realloc st.reallocs with
    | false => exact Or.inl ⟨rfl, rfl⟩
    | true =>
        refine Or.inr ⟨_, rfl, rfl, ⟨holds.count, ?_, ?_, holds.cells⟩, ?_⟩ <;> dsimp only <;> omega
  · exact Or.inr ⟨st, rfl, rfl, holds, by omega⟩

theorem copy_taken (st : Loading) (taken records : List MemAccess) (holds : Taken st taken)
    (short : records.length ≤ readBatchSize) (inside : st.count + records.length ≤ st.capacity)
    (buffered : ∀ i, i < records.length → records[i]? = some (st.buffer i)) :
    ∃ next, copyBatch st records.length = some next ∧ Taken next (taken ++ records) := by
  refine ⟨_, if_pos ⟨short, inside⟩, ?_, inside, holds.doubled, ?_⟩
  · rw [List.length_append, ← holds.count]
  · intro i below
    dsimp only at below ⊢
    rw [write_cells_apply]
    by_cases old : i < st.count
    · rw [if_neg (by omega), List.getElem?_append_left (by rw [← holds.count]; exact old), holds.cells i old]
    · rw [if_pos (by omega), List.getElem?_append_right (by rw [← holds.count]; omega), ← holds.count]
      exact buffered _ (by omega)

def HandsOver (env : LoadEnv) (result : Option Loaded) (taken : List MemAccess) (batches : List (List MemAccess)) : Prop :=
  ∃ loaded k, result = some loaded ∧ loaded.traces.isSome = true ∧ loaded.records = taken ++ (batches.take k).flatten ∧
    loaded.outCount = loaded.records.length ∧ ((∀ i, env.realloc i = true) → k = batches.length)

theorem returned_records (st : Loading) : (Loaded.records ⟨some st.traces, st.count⟩).length = st.count := by
  rw [Loaded.records, Option.elim_some, List.length_map, List.length_range]

theorem load_loop_hands_over {σ : Type} (read : σ → Option (BatchRead σ)) (env : LoadEnv) (source : σ)
    (batches : List (List MemAccess)) (delivers : Delivers read source batches) (fuel : Nat) (enough : batches.length < fuel)
    (st : Loading) (taken : List MemAccess) (holds : Taken st taken) :
    HandsOver env (loadLoop read env fuel source st) taken batches := by
  induction delivers generalizing fuel st taken with
  | ended source after zero =>
      cases fuel with
      | zero => exact absurd enough (Nat.not_lt_zero _)
      | succ fuel =>
          have filled := (fill_taken st taken [] holds).1
          refine ⟨⟨some (fillBuffer st []).traces, (fillBuffer st []).count⟩, 0, ?_, rfl, ?_, ?_, fun _ => rfl⟩
          · simp only [loadLoop, zero, Int.le_refl, if_true]
          · rw [taken_records _ taken filled, List.take_zero, List.flatten_nil, List.append_nil]
          · rw [returned_records]
  | batch source after records rest positive short got _ ih =>
      cases fuel with
      | zero => exact absurd enough (Nat.not_lt_zero _)
      | succ fuel =>
          obtain ⟨filled, buffered⟩ := fill_taken st taken records holds
          have more : ¬ ((records.length : Int) * sizeofMemAccess ≤ 0) := by
            simp only [sizeofMemAccess]
            omega
          have entries : ((records.length : Int) * sizeofMemAccess).toNat / sizeofMemAccess = records.length := by
            simp only [sizeofMemAccess]
            omega
          simp only [loadLoop, got, if_neg more, entries]
          rcases expand_taken env (fillBuffer st records) taken records.length filled short with
            ⟨failed, exhausted⟩ | ⟨expanded, grown, same, kept, inside⟩
          · rw [failed]
            refine ⟨⟨some (fillBuffer st records).traces, (fillBuffer st records).count⟩, 0, rfl, rfl, ?_, ?_, ?_⟩
            · rw [taken_records _ taken filled, List.take_zero, List.flatten_nil, List.append_nil]
            · rw [returned_records]
            · intro allocated
              rw [allocated] at exhausted
              cases exhausted
          · rw [grown]
            obtain ⟨next, copied, taking⟩ := copy_taken expanded taken records kept short inside (by rw [same]; exact buffered)
            simp only [copied]
            obtain ⟨loaded, k, ran, present, prefixed, counted, complete⟩ :=
              ih fuel (Nat.lt_of_succ_lt_succ enough) next (taken ++ records) taking
            refine ⟨loaded, k + 1, ran, present, ?_, counted, fun allocated => congrArg (· + 1) (complete allocated)⟩
            rw [prefixed, List.take_succ_cons, List.flatten_cons, List.append_assoc]

theorem read_loop_counts (remaining : Nat) (tb : TraceBuffer) (copied : List MemAccess) (reply : ReadReply)
    (ran : readLoop (fun _ => false) remaining tb copied = some reply) :
    reply.ret = reply.copied.length * sizeofMemAccess ∧ reply.copied.length ≤ copied.length + remaining := by
  induction remaining generalizing tb copied with
  | zero =>
      obtain rfl := Option.some.inj ran
      exact ⟨rfl, Nat.le_refl _⟩
  | succ remaining ih =>
      rw [readLoop] at ran
      split at ran
      · cases ran
      · obtain rfl := Option.some.inj ran
        exact ⟨rfl, Nat.le_add_right _ _⟩
      · rw [if_neg Bool.false_ne_true] at ran
        have later := ih _ _ ran
        rw [List.length_append, List.length_singleton] at later
        exact ⟨later.1, by omega⟩

theorem collector_read (tb : TraceBuffer) (queue : Fifo MemAccess) (represents : Represents tb queue) :
    ∃ after k, k = min readBatchSize queue.pending.length ∧ Represents after (queue.serve k) ∧
      collectorRead tb = some ⟨after, (queue.pending.take k).length * sizeofMemAccess, queue.pending.take k⟩ := by
  obtain ⟨reply, k, ran, reads⟩ := read_loop_reads tb queue (fun _ => false) readBatchSize [] represents
  have copies := reads.copies
  rw [List.nil_append] at copies
  have whole : traceRead tb (readBatchSize * sizeofMemAccess) (fun _ => false) = some reply := ran
  obtain ⟨counted, bounded⟩ := read_loop_counts readBatchSize tb [] reply ran
  refine ⟨reply.buffer, k, ?_, reads.represents, ?_⟩
  · have available := reads.available
    rw [copies, List.length_take, List.length_nil] at bounded
    by_cases full : k < readBatchSize
    · rcases reads.short full with drained | failed
      · omega
      · cases failed
    · omega
  · rw [collectorRead, whole, Option.map_some, counted, copies]

theorem collector_delivers (tb : TraceBuffer) (queue : Fifo MemAccess) (represents : Represents tb queue) :
    ∃ batches, Delivers collectorRead tb batches ∧ batches.flatten = queue.pending := by
  generalize size : queue.pending.length = waiting
  induction waiting using Nat.strongRecOn generalizing tb queue with
  | ind waiting ih =>
      obtain ⟨after, k, taken, later, got⟩ := collector_read tb queue represents
      have length : (queue.pending.take k).length = k := by
        rw [List.length_take]
        omega
      by_cases empty : queue.pending = []
      · rw [empty] at got ⊢
        exact ⟨[], .ended tb after (by rw [got, List.take_nil]; rfl), rfl⟩
      · have some : 0 < queue.pending.length := List.length_pos_iff.mpr empty
        have fewer : (queue.serve k).pending.length = waiting - k := by
          rw [Fifo.pending_serve, List.length_drop, size]
        simp only [readBatchSize] at taken
        obtain ⟨batches, delivers, rest⟩ := ih (waiting - k) (by omega) after (queue.serve k) later fewer
        refine ⟨queue.pending.take k :: batches, .batch tb after _ batches ?_ ?_ got delivers, ?_⟩
        · omega
        · simp only [readBatchSize]
          omega
        · rw [List.flatten_cons, rest, Fifo.pending_serve, List.take_append_drop]

theorem session_delivers (calls : List TraceCall) (session : Session)
    (ran : Events.run callStep loaded calls = some session) :
    ∃ batches, Delivers collectorRead session.buffer batches ∧
      session.delivered ++ batches.flatten = session.accepted := by
  obtain ⟨same, again, queue, represents, entered, served⟩ := session_consistent calls
  obtain rfl : same = session := Option.some.inj (again.symm.trans ran)
  obtain ⟨batches, delivers, whole⟩ := collector_delivers same.buffer queue represents
  refine ⟨batches, delivers, ?_⟩
  rw [whole, ← served, ← entered]
  exact List.take_append_drop _ _

theorem load_traces_taken {σ : Type} (read : σ → Option (BatchRead σ)) (env : LoadEnv) (source : σ)
    (batches : List (List MemAccess)) (delivers : Delivers read source batches) (allocated : env.malloc = true)
    (opened : 0 ≤ env.fd) (fuel : Nat) (enough : batches.length < fuel) :
    HandsOver env (loadTraces read env fuel source) [] batches := by
  have fits : readBatchSize ≤ initialTraceCapacity := by decide
  rw [loadTraces, allocated, Bool.not_true, if_neg Bool.false_ne_true, if_neg (Int.not_lt.mpr opened)]
  exact load_loop_hands_over read env source batches delivers fuel enough _ []
    ⟨rfl, Nat.zero_le _, fits, fun i below => absurd below (Nat.not_lt_zero i)⟩

-- From the driver after any calls, and from any reader of whole batches. The
-- result exists, so no memcpy left its arrays.
theorem load_traces_hands_over (env : LoadEnv) (allocated : env.malloc = true) (opened : 0 ≤ env.fd) :
    (∀ calls session, Events.run callStep loaded calls = some session →
      ∃ batches, session.delivered ++ batches.flatten = session.accepted ∧
        ∀ fuel, batches.length < fuel → HandsOver env (loadTraces collectorRead env fuel session.buffer) [] batches) ∧
    (∀ (σ : Type) (read : σ → Option (BatchRead σ)) (source : σ) (batches : List (List MemAccess)),
      Delivers read source batches → ∀ fuel, batches.length < fuel →
        HandsOver env (loadTraces read env fuel source) [] batches) := by
  constructor
  · intro calls session ran
    obtain ⟨batches, delivers, whole⟩ := session_delivers calls session ran
    exact ⟨batches, whole, load_traces_taken collectorRead env session.buffer batches delivers allocated opened⟩
  · intro σ read source batches delivers
    exact load_traces_taken read env source batches delivers allocated opened

def hostAllocates : LoadEnv := ⟨true, 3, fun _ => true, fun _ => ⟨0, 0⟩, fun _ => ⟨0, 0⟩⟩

def nextBatch : List (List MemAccess) → Option (BatchRead (List (List MemAccess)))
  | [] => some ⟨[], 0, []⟩
  | records :: rest => some ⟨rest, records.length * sizeofMemAccess, records⟩

theorem load_traces_hands_over_two_batches :
    ∃ loaded, loadTraces nextBatch hostAllocates 3 [[⟨0, 0⟩, ⟨80, 1⟩], [⟨11, 0⟩]] = some loaded ∧
      loaded.records = [⟨0, 0⟩, ⟨80, 1⟩, ⟨11, 0⟩] ∧ loaded.outCount = 3 := by
  have delivers : Delivers nextBatch [[⟨0, 0⟩, ⟨80, 1⟩], [⟨11, 0⟩]] [[⟨0, 0⟩, ⟨80, 1⟩], [⟨11, 0⟩]] :=
    .batch _ _ _ _ (by decide) (by decide) rfl (.batch _ _ _ _ (by decide) (by decide) rfl (.ended _ _ rfl))
  obtain ⟨loaded, k, ran, _, records, counted, complete⟩ :=
    (load_traces_hands_over hostAllocates rfl (by decide)).2 _ nextBatch _ _ delivers 3 (by decide)
  have all := complete (fun _ => rfl)
  rw [all] at records
  refine ⟨loaded, ran, records, ?_⟩
  rw [counted, records]
  rfl

end CpuEmulator.Cache
