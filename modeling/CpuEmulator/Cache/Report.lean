import CpuEmulator.Cache.Accounting
import CpuEmulator.Cache.LoadTraces
import CpuEmulator.Cache.TypedAnswers

set_option autoImplicit false

namespace CpuEmulator.Cache

open Library Assembler

structure LevelLines where
  hits : Nat
  misses : Nat
  rate : Option (Nat × Nat)
deriving DecidableEq, Repr

structure Report where
  numLvls : Nat
  totalTraces : Nat
  numReads : Nat
  numWrites : Nat
  levels : List LevelLines
  ramVisits : Nat
  globalRate : Nat × Nat
deriving DecidableEq, Repr

def numReads (traces : List MemAccess) : Nat := traces.countP (fun access => access.type == 0)

-- The rate of the first level is printed unconditionally.
def levelLines (always : Bool) (cache : CacheLevel) : LevelLines where
  hits := cache.hits
  misses := cache.misses
  rate := if always || decide (0 < cache.hits + cache.misses) then some (cache.misses, cache.hits + cache.misses) else none

def simReport (p : Parameters) (traces : List MemAccess) : Report :=
  let s := simulate p traces traces.length
  { numLvls := p.numLvls
    totalTraces := traces.length
    numReads := numReads traces
    numWrites := traces.length - numReads traces
    levels := levelLines true s.l1 :: ((if 1 < p.numLvls then [levelLines false s.l2] else []) ++
      if 2 < p.numLvls then [levelLines false s.l3] else [])
    ramVisits := ramVisits p s
    globalRate := (ramVisits p s, traces.length) }

-- The index of the loop that counts the reads is an int.
def countable (records : List MemAccess) : Bool := decide (records.length < 2 ^ 31)

-- run_cache_sim does not look at what cache_init returns; without it the sets of
-- the level are not there.
def initsSucceed (p : Parameters) : Bool :=
  (List.finRange 3).all fun lvl => !decide (p.present lvl) || (cacheInit p lvl).2 == 0

inductive SimEnd where
  | waiting
  | fault
  | noTraces
  | reported (report : Report)

def runCacheSim {σ : Type} (convert : Bool → Text → Nat) (read : σ → Option (BatchRead σ)) (env : LoadEnv) (fuel : Nat) (source : σ)
    (stdin : Text) : SimEnd :=
  match configureCacheSimParameters convert staticParameters stdin with
  | .waiting _ => .waiting
  | .answered p _ _ =>
      match loadTraces read env fuel source with
      | none => .fault
      | some result =>
          if result.traces = none ∨ result.outCount = 0 then .noTraces
          else if initsSucceed p && countable result.records then .reported (simReport p result.records)
          else .fault

theorem accepted_inits (p : Parameters) (accepted : Accepted p) : initsSucceed p = true := by
  rw [initsSucceed, List.all_eq_true]
  intro lvl _
  by_cases present : p.present lvl
  · rw [(init_shaped p lvl accepted present).1, beq_self_eq_true, Bool.or_true]
  · rw [decide_eq_false present, Bool.not_false, Bool.true_or]

section Numbers

variable (p : Parameters) (traces : List MemAccess)

theorem hits_at_most (n : Nat) (lvl : Fin 3) : ((simulate p traces n).level lvl).hits ≤ n := by
  have counted := (level_counters p traces n lvl).1
  have most := Nat.count_le (n := n) (p := fun i => reachesAt p traces i lvl = true)
  omega

theorem short_arrives (upper lower : Fin 3) (short : traces.length < 2 ^ 32)
    (passed : ∀ i, reachesAt p traces i lower = (reachesAt p traces i upper && passesOn p traces i (simulate p traces i) upper)) :
    ((simulate p traces traces.length).level lower).hits + ((simulate p traces traces.length).level lower).misses =
      ((simulate p traces traces.length).level upper).misses := by
  have arrived := misses_arrive_or_lost p traces upper lower passed traces.length
  have never : Nat.count (fun i => lostAt p traces i upper = true) traces.length = 0 := by
    refine Nat.count_iff_forall_not.mpr fun i below => ?_
    have few := hits_at_most p traces i upper
    rw [lostAt, hitsAt, decide_eq_false (by omega), Bool.and_false]
    exact Bool.false_ne_true
  rw [never, Nat.add_zero] at arrived
  exact arrived.symm

structure AddsUp (report : Report) : Prop where
  kinds : report.numReads + report.numWrites = report.totalTraces
  levels : report.levels.length = report.numLvls
  first : ∀ level ∈ report.levels.head?, level.hits + level.misses = report.totalTraces
  below : report.levels.IsChain (fun upper lower => lower.hits + lower.misses = upper.misses)
  last : ∀ level ∈ report.levels.getLast?, level.misses = report.ramVisits
  rates : ∀ level ∈ report.levels, ∀ rate ∈ level.rate, 0 < rate.2 ∧ rate.1 ≤ rate.2
  overall : 0 < report.globalRate.2 ∧ report.globalRate.1 ≤ report.globalRate.2

theorem level_rates (always : Bool) (cache : CacheLevel) (served : always = true → 0 < cache.hits + cache.misses) :
    ∀ rate ∈ (levelLines always cache).rate, 0 < rate.2 ∧ rate.1 ≤ rate.2 := by
  intro rate member
  rw [levelLines] at member
  dsimp only at member
  split at member
  · rename_i printed
    obtain rfl := Option.some.inj member
    refine ⟨?_, Nat.le_add_left _ _⟩
    rcases Bool.or_eq_true_iff.mp printed with unconditional | positive
    · exact served unconditional
    · exact of_decide_eq_true positive
  · cases member

inductive Stacked (report : Report) (l1 l2 l3 : LevelLines) : Prop where
  | one (levels : report.levels = [l1]) (count : report.numLvls = 1) (last : report.ramVisits = l1.misses)
  | two (levels : report.levels = [l1, l2]) (count : report.numLvls = 2) (last : report.ramVisits = l2.misses)
      (second : l2.hits + l2.misses = l1.misses)
  | three (levels : report.levels = [l1, l2, l3]) (count : report.numLvls = 3) (last : report.ramVisits = l3.misses)
      (second : l2.hits + l2.misses = l1.misses) (third : l3.hits + l3.misses = l2.misses)

theorem report_stacked (accepted : Accepted p) (short : traces.length < 2 ^ 32) :
    Stacked (simReport p traces) (levelLines true (simulate p traces traces.length).l1)
      (levelLines false (simulate p traces traces.length).l2) (levelLines false (simulate p traces traces.length).l3) := by
  have valid := accepted_levels p accepted
  have second (two : 1 < p.numLvls) := short_arrives p traces 0 1 short (l1_passes_on p traces two)
  have third (three : 2 < p.numLvls) := short_arrives p traces 1 2 short (l2_passes_on p traces three)
  obtain one | two | three : p.numLvls = 1 ∨ p.numLvls = 2 ∨ p.numLvls = 3 := by omega
  · exact .one (by simp [simReport, one]) one (by simp [simReport, ramVisits, one, levelLines])
  · exact .two (by simp [simReport, two]) two (by simp [simReport, ramVisits, two, levelLines]) (second (by omega))
  · exact .three (by simp [simReport, three]) three (by simp [simReport, ramVisits, three, levelLines]) (second (by omega))
      (third (by omega))

theorem report_adds_up (accepted : Accepted p) (filled : traces ≠ []) (short : traces.length < 2 ^ 32) : AddsUp (simReport p traces) := by
  have some : 0 < traces.length := List.length_pos_iff.mpr filled
  have l1 : (simulate p traces traces.length).l1.hits + (simulate p traces traces.length).l1.misses = traces.length := by
    have all : Nat.count (fun i => reachesAt p traces i 0 = true) traces.length = traces.length :=
      Nat.count_iff_forall.mpr fun _ _ => rfl
    exact (level_counters p traces traces.length 0).1.trans all
  have reads : numReads traces ≤ traces.length := List.countP_le_length
  have rate1 := level_rates true (simulate p traces traces.length).l1 (fun _ => by omega)
  have rate2 := level_rates false (simulate p traces traces.length).l2 (fun never => by cases never)
  have rate3 := level_rates false (simulate p traces traces.length).l3 (fun never => by cases never)
  have stacked := report_stacked p traces accepted short
  have first : (levelLines true (simulate p traces traces.length).l1).hits +
      (levelLines true (simulate p traces traces.length).l1).misses = (simReport p traces).totalTraces := l1
  have kinds : (simReport p traces).numReads + (simReport p traces).numWrites = (simReport p traces).totalTraces :=
    Nat.add_sub_cancel' reads
  have overall : (simReport p traces).globalRate = ((simReport p traces).ramVisits, (simReport p traces).totalTraces) := rfl
  have positive : 0 < (simReport p traces).totalTraces := some
  generalize levelLines true _ = first1 at *
  generalize levelLines false (simulate p traces traces.length).l2 = second1 at *
  generalize levelLines false (simulate p traces traces.length).l3 = third1 at *
  generalize simReport p traces = report at *
  cases stacked with
  | one levels count last =>
      refine ⟨kinds, ?_, ?_, ?_, ?_, ?_, ?_⟩
      all_goals simp only [levels, overall]
      · exact count.symm
      · simp [first]
      · exact .singleton _
      · simp [last]
      · exact List.forall_mem_cons.mpr ⟨rate1, List.forall_mem_nil _⟩
      · exact ⟨positive, by omega⟩
  | two levels count last second =>
      refine ⟨kinds, ?_, ?_, ?_, ?_, ?_, ?_⟩
      all_goals simp only [levels, overall]
      · exact count.symm
      · simp [first]
      · simp [second]
      · simp [last]
      · exact List.forall_mem_cons.mpr ⟨rate1, List.forall_mem_cons.mpr ⟨rate2, List.forall_mem_nil _⟩⟩
      · exact ⟨positive, by omega⟩
  | three levels count last second third =>
      refine ⟨kinds, ?_, ?_, ?_, ?_, ?_, ?_⟩
      all_goals simp only [levels, overall]
      · exact count.symm
      · simp [first]
      · simp [second, third]
      · simp [last]
      · exact List.forall_mem_cons.mpr ⟨rate1, List.forall_mem_cons.mpr ⟨rate2, List.forall_mem_cons.mpr ⟨rate3, List.forall_mem_nil _⟩⟩⟩
      · exact ⟨positive, by omega⟩

end Numbers

theorem run_reports {σ : Type} (convert : Bool → Text → Nat) (read : σ → Option (BatchRead σ)) (env : LoadEnv) (fuel : Nat) (source : σ)
    (stdin unread : Text) (p : Parameters) (records : List MemAccess) (result : Loaded) (accepted : Accepted p)
    (configured : Dialogue.Yields (configureCacheSimParameters convert staticParameters) stdin p unread)
    (ran : loadTraces read env fuel source = some result) (present : result.traces.isSome = true) (same : result.records = records)
    (counted : result.outCount = result.records.length) (filled : records ≠ []) (short : records.length < 2 ^ 31) :
    runCacheSim convert read env fuel source stdin = .reported (simReport p records) := by
  obtain ⟨shown, answered⟩ := configured
  have some : ¬ (result.traces = none ∨ result.outCount = 0) := by
    rintro (none | empty)
    · rw [none] at present
      cases present
    · rw [counted, same] at empty
      exact filled (List.length_eq_zero_iff.mp empty)
  rw [runCacheSim, answered]
  dsimp only
  rw [ran]
  dsimp only
  rw [if_neg some, accepted_inits p accepted, countable, same, decide_eq_true short, Bool.and_true, if_pos rfl]

theorem reported_from {σ : Type} (convert : Bool → Text → Nat) (read : σ → Option (BatchRead σ)) (env : LoadEnv) (fuel : Nat)
    (source : σ) (stdin : Text) (report : Report) (printed : runCacheSim convert read env fuel source stdin = .reported report) :
    ∃ p unread result, Dialogue.Yields (configureCacheSimParameters convert staticParameters) stdin p unread ∧
      loadTraces read env fuel source = some result ∧ result.records ≠ [] ∧ result.records.length < 2 ^ 31 ∧
      report = simReport p result.records := by
  rw [runCacheSim] at printed
  split at printed
  · cases printed
  · rename_i p unread shown answered
    split at printed
    · cases printed
    · rename_i result ran
      split at printed
      · cases printed
      · rename_i some
        split at printed
        · rename_i passed
          obtain ⟨_, short⟩ := Bool.and_eq_true_iff.mp passed
          refine ⟨p, unread, result, ⟨shown, answered⟩, ran, ?_, of_decide_eq_true short, (SimEnd.reported.inj printed).symm⟩
          intro empty
          obtain ⟨pointer, filled⟩ := not_or.mp some
          obtain ⟨traces, held⟩ := Option.ne_none_iff_exists'.mp pointer
          rw [Loaded.records, held, Option.elim_some, List.map_eq_nil_iff, List.range_eq_nil] at empty
          exact filled empty
        · cases printed

-- Whatever was typed and whatever the device handed over, no report divides by
-- zero and its numbers fit together.
theorem printed_report_adds_up {σ : Type} (convert : Bool → Text → Nat) (converts : Converts convert) (read : σ → Option (BatchRead σ))
    (env : LoadEnv) (fuel : Nat) (source : σ) (stdin : Text) (report : Report)
    (printed : runCacheSim convert read env fuel source stdin = .reported report) :
    AddsUp report ∧ ∃ p records, Accepted p ∧ records ≠ [] ∧ report = simReport p records := by
  obtain ⟨p, unread, result, configured, _, filled, short, rfl⟩ :=
    reported_from convert read env fuel source stdin report printed
  have accepted := (configuration_answerable convert converts staticParameters).ensures stdin p unread configured
  exact ⟨report_adds_up p result.records accepted filled (by omega), p, result.records, accepted, filled, rfl⟩

theorem printed_report_adds_up_two_accesses : AddsUp ⟨1, 2, 1, 1, [⟨1, 1, some (1, 2)⟩], 1, (1, 2)⟩ :=
  (printed_report_adds_up storedU32 stored_converts nextBatch hostAllocates 2 [[⟨0, 0⟩, ⟨8, 1⟩]]
    ['x', '\n', '1', '\n', '1', '6', '\n', '3', '\n', '2', '\n', '6', '4', '\n', '2', '\n'] _ rfl).1

end CpuEmulator.Cache
