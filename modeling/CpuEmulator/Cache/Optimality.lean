import CpuEmulator.Cache.OptimalVictim
import CpuEmulator.Cache.LruHierarchy
import Mathlib.Data.Finset.Max

set_option autoImplicit false

namespace CpuEmulator.Cache

open Library

section Stream

variable (p : Parameters) (traces : List MemAccess) (lvl : Fin 3)

def ownStream (i n : Nat) : List Nat :=
  ((List.range' i (n - i)).filter (fun j => reaches p traces j (simulate p traces j) lvl)).map (traceLine p traces)

theorem own_stream_end (n : Nat) : ownStream p traces lvl n n = [] := by
  rw [ownStream, Nat.sub_self]
  rfl

theorem own_stream_step (i n : Nat) (more : i < n) : ownStream p traces lvl i n =
    if reaches p traces i (simulate p traces i) lvl then traceLine p traces i :: ownStream p traces lvl (i + 1) n
    else ownStream p traces lvl (i + 1) n := by
  have count : n - i = (n - (i + 1)) + 1 := by omega
  rw [ownStream, count, List.range'_succ, List.filter_cons]
  split
  · rw [List.map_cons, ownStream]
  · rw [ownStream]

theorem own_stream_append (i n m : Nat) (first : i ≤ n) (second : n ≤ m) :
    ownStream p traces lvl i m = ownStream p traces lvl i n ++ ownStream p traces lvl n m := by
  have count : m - i = (n - i) + (m - n) := by omega
  have middle : n = i + (n - i) := by omega
  rw [ownStream, count, ← List.range'_append_1, List.filter_append, List.map_append, ← middle, ownStream, ownStream]

end Stream

section Furthest

variable (p : Parameters) (traces : List MemAccess) (lvl : Fin 3)

def VictimFurthestHere (i : Nat) : Prop :=
  let cache := (simulate p traces i).level lvl
  ∃ victim ∈ (cache.sets 0)[victimAt p.policy cache traces i]?, ∀ line ∈ cache.sets 0,
    (ownStream p traces lvl (i + 1) traces.length).idxOf (storedLine cache 0 line) ≤
      (ownStream p traces lvl (i + 1) traces.length).idxOf (storedLine cache 0 victim)

def Replaces (i : Nat) : Prop :=
  reaches p traces i (simulate p traces i) lvl = true ∧ EvictsAt ((simulate p traces i).level lvl) traces i

instance (i : Nat) : Decidable (Replaces p traces lvl i) := inferInstanceAs (Decidable (_ ∧ _))

theorem line_of_trace (cache : CacheLevel) (i : Nat) (of : OfLevel p lvl cache) :
    lineOf cache (addrAt traces i) = traceLine p traces i := by
  rw [lineOf, traceLine, of.lineSize]

-- One access to a level with a single set is a request served under Furthest,
-- if its victim is the right one.
theorem access_serves (i n : Nat) (accepted : Accepted p) (present : p.present lvl) (single : setCount p lvl = 1)
    (more : i < n) (inTrace : n ≤ traces.length)
    (reached : reaches p traces i (simulate p traces i) lvl = true)
    (furthest : EvictsAt ((simulate p traces i).level lvl) traces i → VictimFurthestHere p traces lvl i) :
    ∃ cost, Paging.Serve (p.assoc lvl) (Paging.Furthest (ownStream p traces lvl (i + 1) n))
        (residentLines ((simulate p traces i).level lvl) 0).toFinset (traceLine p traces i)
        (residentLines ((simulate p traces (i + 1)).level lvl) 0).toFinset cost ∧
      ((simulate p traces (i + 1)).level lvl).misses = ((simulate p traces i).level lvl).misses + cost := by
  have of := simulate_of_level p traces lvl accepted present i
  have shape : (simulate p traces (i + 1)).level lvl = served p traces i (simulate p traces i) lvl := by
    rw [simulate, step_level, if_pos reached]
  rw [shape, served]
  have line := line_of_trace p traces lvl _ i of
  have sets := of.sets.trans single
  simp only [VictimFurthestHere] at furthest
  generalize (simulate p traces i).level lvl = cache at of furthest line sets ⊢
  have index := single_set_index cache of.sound.shaped sets (addrAt traces i)
  obtain ⟨hit, after, moved, done⟩ := sound_access_effect p.policy (timerAt (simulate p traces i) lvl) cache traces i of.sound
  have lines := set_served_lines cache of.sound.shaped _ _ _ _ _ _ moved
  have serves := lines_served_paging _ _ _ _ _ _ lines (of.sound.distinct _)
  simp only [EvictsAt] at furthest
  rw [of.sound.slots, of.ways, line, index] at serves
  rw [done, index, with_set_same]
  refine ⟨_, Paging.serve_mono _ _ _ _ _ _ _ ?_ serves, rfl⟩
  rintro number ⟨evicts, chosen, slot, rfl⟩
  rw [index] at furthest
  obtain ⟨victim, same, latest⟩ := furthest evicts
  rw [victimAt, index] at same slot
  obtain rfl : chosen = victim := Option.some.inj (slot.symm.trans same)
  have early : Paging.Furthest (ownStream p traces lvl (i + 1) traces.length) (residentLines cache 0).toFinset
      (storedLine cache 0 chosen) := by
    intro other member
    obtain ⟨known, resident, _, rfl⟩ := (mem_lines_of cache 0 _ other).mp (List.mem_toFinset.mp member)
    exact latest known resident
  rw [own_stream_append p traces lvl (i + 1) n traces.length more inTrace] at early
  exact Paging.furthest_prefix _ _ _ _ early

theorem level_runs (accepted : Accepted p) (present : p.present lvl) (single : setCount p lvl = 1) (n : Nat)
    (inTrace : n ≤ traces.length) (furthest : ∀ i, i < n → Replaces p traces lvl i → VictimFurthestHere p traces lvl i)
    (d i : Nat) (split : i + d = n) :
    ∃ final paid, Paging.Run (p.assoc lvl) Paging.Furthest (residentLines ((simulate p traces i).level lvl) 0).toFinset
        (ownStream p traces lvl i n) final paid ∧
      ((simulate p traces n).level lvl).misses = ((simulate p traces i).level lvl).misses + paid := by
  induction d generalizing i with
  | zero =>
      obtain rfl : i = n := split
      rw [own_stream_end]
      exact ⟨_, 0, .nil _, rfl⟩
  | succ d ih =>
      obtain ⟨final, paid, ran, total⟩ := ih (i + 1) (by omega)
      rw [own_stream_step p traces lvl i n (by omega)]
      cases reached : reaches p traces i (simulate p traces i) lvl with
      | true =>
          obtain ⟨cost, serves, step⟩ := access_serves p traces lvl i n accepted present single (by omega) inTrace reached
            (fun evicts => furthest i (by omega) ⟨reached, evicts⟩)
          rw [if_pos rfl]
          exact ⟨final, cost + paid, .cons _ _ final _ _ cost paid serves ran, by omega⟩
      | false =>
          have shape : (simulate p traces (i + 1)).level lvl = (simulate p traces i).level lvl := by
            rw [simulate, step_level, reached, if_neg Bool.false_ne_true]
          rw [shape] at ran total
          rw [if_neg Bool.false_ne_true]
          exact ⟨final, paid, ran, total⟩

theorem level_run_furthest (accepted : Accepted p) (present : p.present lvl) (single : setCount p lvl = 1) (n : Nat)
    (inTrace : n ≤ traces.length) (furthest : ∀ i, i < n → Replaces p traces lvl i → VictimFurthestHere p traces lvl i) :
    ∃ final, Paging.Run (p.assoc lvl) Paging.Furthest ∅ (ownStream p traces lvl 0 n) final
      ((simulate p traces n).level lvl).misses := by
  obtain ⟨final, paid, ran, total⟩ := level_runs p traces lvl accepted present single n inTrace furthest n 0 (Nat.zero_add n)
  obtain ⟨_, _, done⟩ := init_shaped p lvl accepted present
  have start : (simulate p traces 0).level lvl = (cacheInit p lvl).1 := start_level p lvl present
  rw [start, done, residentLines, empty_lines] at ran
  rw [start, done, Nat.zero_add] at total
  rw [total]
  exact ⟨final, ran⟩

end Furthest

section FullyAssociative

variable (p : Parameters) (traces : List MemAccess)

theorem own_stream_l1 (i : Nat) : ownStream p traces 0 i traces.length =
    (traces.drop i).map (fun access => access.addr.toNat / p.lineSize) := by
  have all : ownStream p traces 0 i traces.length = (List.range' i (traces.length - i)).map (traceLine p traces) := by
    rw [ownStream]
    congr 1
    exact List.filter_eq_self.mpr (fun j _ => rfl)
  rw [all]
  apply List.ext_getElem
  · rw [List.length_map, List.length_map, List.length_range', List.length_drop]
  · intro k left right
    rw [List.length_map, List.length_drop] at right
    rw [List.getElem_map, List.getElem_map, List.getElem_range', List.getElem_drop, traceLine, addrAt, Nat.one_mul,
      List.getElem?_eq_getElem (by omega)]
    rfl

theorem single_set_of_size (accepted : Accepted p) (fullyAssociative : p.lvlSize 0 = p.assoc 0 * p.lineSize) :
    setCount p 0 = 1 := by
  have present := l1_present p accepted
  obtain ⟨lineBits, _, line⟩ := line_size_exponent p accepted
  obtain ⟨wayBits, _, ways⟩ := assoc_exponent p 0 accepted present
  rw [setCount, fullyAssociative, Nat.mul_comm]
  apply Nat.div_self
  rw [line, ways, ← Nat.pow_add]
  exact Nat.two_pow_pos _

theorem l1_victim_furthest_here (accepted : Accepted p) (optimal : p.policy = .optimal) (single : setCount p 0 = 1) (i : Nat) :
    VictimFurthestHere p traces 0 i := by
  have present := l1_present p accepted
  have of := simulate_of_level p traces 0 accepted present i
  have sets := of.sets.trans single
  have furthest := (victim_furthest_iff _ traces i of.sound).mpr (single_set_latest _ traces i of.sound sets)
  simp only [VictimFurthest] at furthest
  rw [single_set_index _ of.sound.shaped sets] at furthest
  obtain ⟨victim, slot, latest⟩ := furthest
  rw [← optimal] at slot
  refine ⟨victim, slot, fun line member => ?_⟩
  have order := latest line member
  simp only [nextAccess, lineOf] at order
  rw [of.lineSize] at order
  rw [own_stream_l1]
  exact order

theorem optimal_l1_misses_least (accepted : Accepted p) (optimal : p.policy = .optimal)
    (fullyAssociative : p.lvlSize 0 = p.assoc 0 * p.lineSize) (strategy : Paging.Strategy Nat) :
    (simulate p traces traces.length).l1.misses ≤
      strategy.misses (p.assoc 0) (traces.map (fun access => access.addr.toNat / p.lineSize)) := by
  have present := l1_present p accepted
  have single := single_set_of_size p accepted fullyAssociative
  obtain ⟨final, ran⟩ := level_run_furthest p traces 0 accepted present single traces.length (Nat.le_refl _)
    (fun i _ _ => l1_victim_furthest_here p traces accepted optimal single i)
  rw [own_stream_l1, List.drop_zero] at ran
  obtain ⟨wayBits, _, ways⟩ := assoc_exponent p 0 accepted present
  apply Paging.furthest_run_beats_strategy strategy (p.assoc 0) _ final _ _ ran
  rw [ways]
  exact Nat.two_pow_pos _

def lowestLine : Paging.Strategy Nat where
  victim _ _ contents := if some : contents.Nonempty then contents.min' some else 0
  resident _ _ contents some := by
    rw [dif_pos some]
    exact contents.min'_mem some

def oneSet : Parameters := ⟨1, 16, fun _ => 2, fun _ => 32, .optimal⟩

theorem one_set_accepted : Accepted oneSet := ⟨by decide, by decide, by decide, by decide⟩

theorem optimal_l1_misses_least_one_set :
    (simulate oneSet (readsAt [0, 16, 32, 0, 16]) 5).l1.misses ≤
      lowestLine.misses 2 ((readsAt [0, 16, 32, 0, 16]).map (fun access => access.addr.toNat / 16)) :=
  optimal_l1_misses_least oneSet (readsAt [0, 16, 32, 0, 16]) one_set_accepted rfl rfl lowestLine

end FullyAssociative

section LowerLevel

variable (p : Parameters) (traces : List MemAccess) (lvl : Fin 3)

def FuturesAgree (i : Nat) : Prop :=
  let cache := (simulate p traces i).level lvl
  ∃ latest ∈ cache.sets 0,
    (∀ line ∈ cache.sets 0, tagUse cache traces i line.tag ≤ tagUse cache traces i latest.tag) ∧
      ∀ line ∈ cache.sets 0,
        (ownStream p traces lvl (i + 1) traces.length).idxOf (storedLine cache 0 line) ≤
          (ownStream p traces lvl (i + 1) traces.length).idxOf (storedLine cache 0 latest)

instance (i : Nat) : Decidable (FuturesAgree p traces lvl i) := inferInstanceAs (Decidable (∃ _ ∈ _, _ ∧ _))

theorem own_stream_in_trace (cache : CacheLevel) (i : Nat) (of : OfLevel p lvl cache) (number : Nat)
    (later : number ∈ ownStream p traces lvl i traces.length) :
    ∃ access ∈ traces.drop i, lineOf cache access.addr = number := by
  obtain ⟨j, kept, rfl⟩ := List.mem_map.mp later
  obtain ⟨⟨k, inside, rfl⟩, _⟩ := And.imp_left List.mem_range'.mp (List.mem_filter.mp kept)
  have bound : k < (traces.drop i).length := by
    rw [List.length_drop]
    exact inside
  refine ⟨(traces.drop i)[k], List.getElem_mem bound, ?_⟩
  rw [List.getElem_drop, traceLine, addrAt, Nat.one_mul, List.getElem?_eq_getElem (by omega), lineOf, of.lineSize]
  rfl

theorem victim_furthest_here_iff (accepted : Accepted p) (optimal : p.policy = .optimal) (present : p.present lvl)
    (single : setCount p lvl = 1) (i : Nat) : VictimFurthestHere p traces lvl i ↔ FuturesAgree p traces lvl i := by
  have of := simulate_of_level p traces lvl accepted present i
  unfold VictimFurthestHere FuturesAgree
  generalize (simulate p traces i).level lvl = cache at of ⊢
  have sets := of.sets.trans single
  have slot : victimAt p.policy cache traces i = findOptimalVictim cache (cache.sets 0) traces i := by
    rw [victimAt, single_set_index cache of.sound.shaped sets, optimal]
    rfl
  dsimp only
  rw [slot]
  apply optimal_choice_iff cache traces i (cache.sets 0)
    (fun line => (ownStream p traces lvl (i + 1) traces.length).idxOf (storedLine cache 0 line))
  · rw [of.sound.slots]
    exact of.sound.shaped.ways
  · intro first second same
    simp only [storedLine, same]
  · intro line _ unused other _
    have absent := unused_tag_unused_line cache traces i 0 line of.sound.shaped (num_sets_pos cache of.sound.shaped) unused
    have never : storedLine cache 0 line ∉ ownStream p traces lvl (i + 1) traces.length := by
      intro later
      obtain ⟨access, member, same⟩ := own_stream_in_trace p traces lvl cache (i + 1) of _ later
      exact absent access member same
    rw [List.idxOf_eq_length_iff.mpr never]
    exact List.idxOf_le_length

-- The decisions of a lower level are optimal exactly where the two futures
-- agree, and a run with no other decisions misses no more often than LRU.
theorem lower_level_misses_at_most_lru (accepted : Accepted p) (optimal : p.policy = .optimal) (present : p.present lvl)
    (single : setCount p lvl = 1) :
    (∀ i, Replaces p traces lvl i → (VictimFurthestHere p traces lvl i ↔ FuturesAgree p traces lvl i)) ∧
      ∀ n, n ≤ traces.length → (∀ i, i < n → Replaces p traces lvl i → FuturesAgree p traces lvl i) →
        ((simulate p traces n).level lvl).misses ≤ (Lru.run 1 (p.assoc lvl) (ownStream p traces lvl 0 n)).misses := by
  have each := victim_furthest_here_iff p traces lvl accepted optimal present single
  refine ⟨fun i _ => each i, fun n inTrace agree => ?_⟩
  obtain ⟨final, ran⟩ := level_run_furthest p traces lvl accepted present single n inTrace
    (fun i early replaces => (each i).mpr (agree i early replaces))
  obtain ⟨wayBits, _, ways⟩ := assoc_exponent p lvl accepted present
  have positive : 0 < p.assoc lvl := by
    rw [ways]
    exact Nat.two_pow_pos _
  obtain ⟨lruFinal, lruRan⟩ := Lru.single_set_run (p.assoc lvl) (ownStream p traces lvl 0 n) positive
  exact Paging.furthest_run_is_optimal (p.assoc lvl) Paging.anyVictim _ final lruFinal _ _ ran lruRan

-- L1 and L2 of one set with two ways each. L1 hits line 0 again before L2 is
-- asked for line 1, which L2 gave up because the trace wanted line 0 first.
def twoLevels : Parameters := ⟨2, 16, fun _ => 2, fun _ => 32, .optimal⟩

theorem two_levels_accepted : Accepted twoLevels := ⟨by decide, by decide, by decide, by decide⟩

theorem upper_hits_mislead_l2 :
    Accepted twoLevels ∧ twoLevels.policy = .optimal ∧ setCount twoLevels 1 = 1 ∧
      ¬ ((simulate twoLevels (readsAt [0, 16, 32, 0, 16]) 5).level 1).misses ≤
        (Lru.run 1 2 (ownStream twoLevels (readsAt [0, 16, 32, 0, 16]) 1 0 5)).misses :=
  ⟨two_levels_accepted, rfl, by decide, by decide⟩

theorem lower_level_misses_at_most_lru_two_levels :
    ((simulate twoLevels (readsAt [0, 16, 32, 16]) 4).level 1).misses ≤
      (Lru.run 1 2 (ownStream twoLevels (readsAt [0, 16, 32, 16]) 1 0 4)).misses :=
  (lower_level_misses_at_most_lru twoLevels (readsAt [0, 16, 32, 16]) 1 two_levels_accepted rfl (by decide) (by decide)).2 4
    (by decide) (by decide)

end LowerLevel

end CpuEmulator.Cache
