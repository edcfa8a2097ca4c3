import CpuEmulator.Cache.Report
import CpuEmulator.Language.Observations

set_option autoImplicit false

namespace CpuEmulator.Language

open Library Assembler Userspace TraceCollector Cache

section Collecting

-- write(fd, &access, sizeof(mem_access)) while there is memory for a chunk.
def Writes (call : TraceCall) (record : MemAccess) : Prop := ∃ entries, call = .write sizeofMemAccess false record (some entries)

theorem push_stores (tb : TraceBuffer) (entry : MemAccess) (entries : Fin chunkSize → MemAccess) (pushed : WriteReply)
    (ran : traceBufferPush tb entry (some entries) = some pushed) : pushed.ret = 0 := by
  rw [traceBufferPush] at ran
  split at ran
  · cases ran
  · obtain ⟨stored, _, rfl⟩ := Option.map_eq_some_iff.mp ran
    rfl
  · obtain ⟨stored, _, rfl⟩ := Option.map_eq_some_iff.mp ran
    rfl

theorem write_returns (tb : TraceBuffer) (entry : MemAccess) (entries : Fin chunkSize → MemAccess) (reply : WriteReply)
    (ran : traceWrite tb sizeofMemAccess false entry (some entries) = some reply) : reply.ret = sizeofMemAccess := by
  rw [traceWrite, if_neg (Nat.lt_irrefl _), if_neg Bool.false_ne_true] at ran
  obtain ⟨pushed, stored, rfl⟩ := Option.map_eq_some_iff.mp ran
  rw [if_neg (not_not_intro (push_stores tb entry entries pushed stored))]

theorem write_accepted (session next : Session) (call : TraceCall) (record : MemAccess) (writes : Writes call record)
    (taken : callStep session call = some next) :
    next.accepted = session.accepted ++ [record] ∧ next.delivered = session.delivered := by
  obtain ⟨entries, rfl⟩ := writes
  obtain ⟨reply, ran, rfl⟩ := Option.map_eq_some_iff.mp taken
  rw [if_pos (by rw [write_returns _ _ _ _ ran]; exact Int.natCast_nonneg _)]
  exact ⟨rfl, rfl⟩

theorem writes_accepted (session : Session) (consistent : Consistent session) (calls : List TraceCall) (records : List MemAccess)
    (each : List.Forall₂ Writes calls records) :
    ∃ now, Events.run callStep session calls = some now ∧ Consistent now ∧ now.accepted = session.accepted ++ records ∧
      now.delivered = session.delivered := by
  induction each generalizing session with
  | nil => exact ⟨session, rfl, consistent, (List.append_nil _).symm, rfl⟩
  | @cons call record calls records writes _ ih =>
      obtain ⟨next, taken, kept⟩ := call_consistent session call consistent
      obtain ⟨accepted, delivered⟩ := write_accepted session next call record writes taken
      obtain ⟨now, ran, held, whole, same⟩ := ih next kept
      refine ⟨now, ?_, held, ?_, same.trans delivered⟩
      · rw [Events.run_cons, taken]
        exact ran
      · rw [whole, accepted, List.append_assoc, List.singleton_append]

def unreadRecords (session : Session) : List MemAccess := session.accepted.drop session.delivered.length

theorem consistent_delivers (session : Session) (consistent : Consistent session) :
    ∃ batches, Delivers collectorRead session.buffer batches ∧ batches.flatten = unreadRecords session := by
  obtain ⟨queue, represents, entered, served⟩ := consistent
  obtain ⟨batches, delivers, whole⟩ := collector_delivers session.buffer queue represents
  refine ⟨batches, delivers, ?_⟩
  rw [whole, unreadRecords, ← entered, ← served, Fifo.served, Fifo.pending, List.length_take, Nat.min_eq_left queue.bounded]

theorem unread_after (session now : Session) (consistent : Consistent session) (records : List MemAccess)
    (accepted : now.accepted = session.accepted ++ records) (delivered : now.delivered = session.delivered) :
    unreadRecords now = unreadRecords session ++ records := by
  obtain ⟨queue, _, entered, served⟩ := consistent
  have fewer : session.delivered.length ≤ session.accepted.length := by
    rw [← entered, ← served]
    exact queue.served_prefix.length_le
  rw [unreadRecords, unreadRecords, accepted, delivered, List.drop_append_of_le_length fewer]

end Collecting

-- The return values of the trace device are those of the collector.
structure Traced (opening : OpenEnv) (envs : Nat → IterEnv) : Prop where
  first : opening.firstTrace = sizeofMemAccess
  data : ∀ k, (envs k).dataTrace = sizeofMemAccess
  fetch : ∀ k, (envs k).fetchTrace = sizeofMemAccess

structure Allocating (env : LoadEnv) : Prop where
  malloc : env.malloc = true
  opened : 0 ≤ env.fd
  realloc : ∀ i, env.realloc i = true

theorem collected_report (session : Session) (consistent : Consistent session) (calls : List TraceCall) (records : List MemAccess)
    (each : List.Forall₂ Writes calls records) (filled : records ≠ []) (convert : Bool → Text → Nat) (converts : Converts convert)
    (short : (unreadRecords session ++ records).length < 2 ^ 31) (p : Parameters) (untouched : Untouched staticParameters p)
    (answers : TypedAnswers p) (env : LoadEnv) (allocating : Allocating env) :
    ∃ now enough, Events.run callStep session calls = some now ∧ ∀ rest fuel, enough < fuel →
      runCacheSim convert collectorRead env fuel now.buffer (answers.text rest) =
        .reported (simReport p (unreadRecords session ++ records)) := by
  obtain ⟨now, ran, held, accepted, delivered⟩ := writes_accepted session consistent calls records each
  obtain ⟨batches, delivers, whole⟩ := consistent_delivers now held
  rw [unread_after session now consistent records accepted delivered] at whole
  refine ⟨now, batches.length, ran, fun rest fuel enough => ?_⟩
  obtain ⟨result, k, found, present, handed, counted, complete⟩ :=
    load_traces_taken collectorRead env now.buffer batches delivers allocating.malloc allocating.opened fuel enough
  rw [complete allocating.realloc, List.nil_append, List.take_length, whole] at handed
  have configured := configuration_typed convert converts staticParameters p untouched answers rest
  have accepted := (configuration_answerable convert converts staticParameters).ensures _ _ _ configured
  refine run_reports convert collectorRead env fuel now.buffer _ _ p _ result accepted configured found present handed counted ?_ short
  exact fun empty => filled (List.append_eq_nil_iff.mp empty).2

section Runs

variable (source : SourceFile) (items : List Item) (opening : OpenEnv) (envs : Nat → IterEnv)

theorem accesses_filled (inputs : Nat → U64) (k : Nat) : sourceAccesses items inputs blankMemory k ≠ [] := List.cons_ne_nil _ _

-- The report at the end of main is the simulation of the accesses that the
-- source makes, behind what earlier runs have left in the collector.
theorem source_report_printed (alloc : Nat → Assembler.Memory) (allocates : Allocates alloc) (runnable : Runnable source items)
    (board : Driver.Board) (opens : Opens opening) (succeeds : ∀ k, Succeeds (envs k)) (traced : Traced opening envs) (k : Nat)
    (stop : SourceStop)
    (ended : sourceRun items (fun j => BitVec.ofInt 64 (envs j).read.input) blankMemory k = .stopped stop)
    (earlier : List TraceCall) (session : Session) (before : Events.run callStep TraceCollector.loaded earlier = some session)
    (short : (unreadRecords session ++
      sourceAccesses items (fun j => BitVec.ofInt 64 (envs j).read.input) blankMemory k).length < 2 ^ 31)
    (convert : Bool → Text → Nat) (converts : Converts convert) (p : Parameters) (untouched : Untouched staticParameters p)
    (answers : TypedAnswers p) (env : LoadEnv) (allocating : Allocating env) :
    mainAfter alloc (some source) opening board envs k = .exited exitSuccess true ∧
      ∃ program final, parseAssembly alloc (some source) = .ok program ∧
        runLoop (Userspace.loaded program).text (Userspace.loaded program).count envs
          (runStart opening board (Userspace.loaded program).memory) k = .stopped (.exit 0 final) ∧
        ∀ calls, List.Forall₂ Writes calls final.trace → ∃ now enough, Events.run callStep session calls = some now ∧
          ∀ rest fuel, enough < fuel →
            runCacheSim convert collectorRead env fuel now.buffer (answers.text rest) =
              .reported (simReport p (unreadRecords session ++
                sourceAccesses items (fun j => BitVec.ofInt 64 (envs j).read.input) blankMemory k)) := by
  obtain ⟨program, returned⟩ := listing_returned alloc source items runnable.short runnable.listed allocates
  obtain ⟨compiled, texts⟩ := returned_compiled alloc source items program runnable.short runnable.listed runnable.closed returned
  have stands := loop_stands source items runnable program compiled texts opening board envs opens succeeds k
  have sized : (0 : Int) ≤ sizeofMemAccess := Int.natCast_nonneg _
  have recorded := loop_records_source source items runnable program compiled texts opening board envs opens succeeds k
    (by rw [traced.first]; exact sized) (fun j => ⟨by rw [traced.data]; exact sized, by rw [traced.fetch]; exact sized⟩)
  obtain ⟨same, reached, consistent⟩ := session_consistent earlier
  obtain rfl : same = session := Option.some.inj (reached.symm.trans before)
  rw [ended] at stands
  rw [mainAfter, run_called alloc (some source) program returned]
  dsimp only
  generalize ran : runLoop (Userspace.loaded program).text (Userspace.loaded program).count envs
    (runStart opening board (Userspace.loaded program).memory) k = client at stands recorded ⊢
  cases stands with
  | stopped closes =>
      cases closes with
      | finished final _ _ | rejected final _ _ =>
          refine ⟨rfl, program, final, returned, ran, fun calls each => ?_⟩
          have trace : final.trace = _ := recorded
          rw [trace] at each
          exact collected_report same consistent calls _ each (accesses_filled items _ k) convert converts short p
            untouched answers env allocating

end Runs

section AddOnce

def addOnce : List Item := [addOneItem]

def addOnceSource : SourceFile := ⟨['A', 'D', 'D', ' ', 'R', '0', ',', ' ', '1'], by decide⟩

theorem add_once_runnable : Runnable addOnceSource addOnce where
  short := by decide
  listed := .cons _ _ _ _ (.statement _ ⟨0, 0, 0, 1, 0, false⟩ rfl rfl) .nil
  closed := ⟨fun op label member => by cases List.mem_singleton.mp member⟩
  above := ⟨fun target address member => (by cases List.mem_singleton.mp member),
    fun address source member => (by cases List.mem_singleton.mp member)⟩
  fits := by decide

theorem written_each (records : List MemAccess) (entries : Fin chunkSize → MemAccess) :
    List.Forall₂ Writes (records.map fun record => .write sizeofMemAccess false record (some entries)) records :=
  List.forall₂_map_left_iff.mpr (List.forall₂_same.mpr fun _ _ => ⟨entries, rfl⟩)

end AddOnce

-- The fetches of ADD and HALT are in one line of the cache.
theorem source_report_printed_add_once :
    mainAfter freeMemory (some addOnceSource) startedOpening darkBoard (fun _ => pressedEnv) 2 = .exited exitSuccess true ∧
      ∃ calls now enough, Events.run callStep TraceCollector.loaded calls = some now ∧ ∀ fuel, enough < fuel →
        runCacheSim storedU32 collectorRead hostAllocates fuel now.buffer (oneLevelAnswers.text []) =
          .reported ⟨1, 2, 2, 0, [⟨1, 1, some (1, 2)⟩], 1, (1, 2)⟩ := by
  have printed := source_report_printed addOnceSource addOnce startedOpening (fun _ => pressedEnv) freeMemory (fun _ => ⟨rfl, rfl⟩)
    add_once_runnable darkBoard ⟨by decide, rfl, by decide⟩ (fun _ => ⟨rfl, rfl, rfl, rfl, Or.inr rfl⟩)
    ⟨rfl, fun _ => rfl, fun _ => rfl⟩ 2 _ rfl [] TraceCollector.loaded rfl (by decide) storedU32 stored_converts oneLevel one_level_untouched
    oneLevelAnswers hostAllocates ⟨rfl, by decide, fun _ => rfl⟩
  obtain ⟨main, _, final, _, _, collected⟩ := printed
  obtain ⟨now, enough, ran, reported⟩ := collected _ (written_each final.trace fun _ => ⟨0, 0⟩)
  exact ⟨main, _, now, enough, ran, reported []⟩

end CpuEmulator.Language
