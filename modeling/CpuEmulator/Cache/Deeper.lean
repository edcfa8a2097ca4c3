import CpuEmulator.Cache.Compulsory
import CpuEmulator.Cache.DirectMapped
import CpuEmulator.Cache.LruHierarchy

set_option autoImplicit false

namespace CpuEmulator.Cache

open Library

structure Deepens (p q : Parameters) : Prop where
  more : p.numLvls ≤ q.numLvls
  lineSize : q.lineSize = p.lineSize
  policy : q.policy = p.policy
  assoc : ∀ lvl, p.present lvl → q.assoc lvl = p.assoc lvl
  lvlSize : ∀ lvl, p.present lvl → q.lvlSize lvl = p.lvlSize lvl

structure SameLevel (first second : CacheLevel) : Prop where
  hits : first.hits = second.hits
  misses : first.misses = second.misses
  resident : ∀ line, Resident first line ↔ Resident second line

section Unstamped

def unstamp (line : CacheLine) : CacheLine := { line with lastUsed := 0 }

def CacheLevel.unstamped (cache : CacheLevel) : CacheLevel :=
  { cache with sets := fun set => (cache.sets set).map unstamp }

theorem unstamped_hit_slot (lines : List CacheLine) (tag : U64) : hitSlot (lines.map unstamp) tag = hitSlot lines tag :=
  List.findIdx?_map

theorem unstamped_empty_slot (lines : List CacheLine) : emptySlot (lines.map unstamp) = emptySlot lines :=
  List.findIdx?_map

theorem unstamped_next_use (cache : CacheLevel) (tag : U64) (traces : List MemAccess) (currentIdx : Nat) :
    nextUse cache.unstamped tag traces currentIdx = nextUse cache tag traces currentIdx := rfl

theorem unstamped_scan (cache : CacheLevel) (traces : List MemAccess) (currentIdx : Nat) (lines : List CacheLine)
    (i furthest victim : Nat) : optimalScan cache.unstamped traces currentIdx (lines.map unstamp) i furthest victim =
      optimalScan cache traces currentIdx lines i furthest victim := by
  induction lines generalizing i furthest victim with
  | nil => rfl
  | cons line rest ih =>
      rw [List.map_cons, optimalScan, optimalScan, unstamped_next_use]
      simp only [ih]
      rfl

theorem unstamped_modify (lines : List CacheLine) (i : Nat) (change other : CacheLine → CacheLine)
    (same : ∀ line, unstamp (change line) = unstamp (other (unstamp line))) :
    (lines.modify i change).map unstamp = ((lines.map unstamp).modify i other).map unstamp := by
  induction lines generalizing i with
  | nil => simp
  | cons line rest ih =>
      cases i with
      | zero =>
          have again : unstamp ∘ unstamp = unstamp := rfl
          simp [same, again]
      | succ i =>
          have once : unstamp (unstamp line) = unstamp line := rfl
          simp [ih, once]

theorem unstamped_update (cache : CacheLevel) (set i : Nat) (change other : CacheLine → CacheLine)
    (same : ∀ line, unstamp (change line) = unstamp (other (unstamp line))) :
    (fun any => (Function.update cache.sets set ((cache.sets set).modify i change) any).map unstamp) =
      fun any => (Function.update (fun any => (cache.sets any).map unstamp) set
        (((cache.sets set).map unstamp).modify i other) any).map unstamp := by
  funext any
  by_cases here : any = set
  · rw [here, Function.update_self, Function.update_self, unstamped_modify _ i change other same]
  · rw [Function.update_of_ne here, Function.update_of_ne here, List.map_map]
    rfl

theorem unstamped_access (timer other : Nat) (cache : CacheLevel) (traces : List MemAccess) (currentIdx : Nat) :
    (cacheAccess .optimal timer cache traces currentIdx).2.unstamped =
      (cacheAccess .optimal other cache.unstamped traces currentIdx).2.unstamped := by
  have hit := unstamped_hit_slot (cache.sets (indexOf cache (addrAt traces currentIdx))) (tagOf cache (addrAt traces currentIdx))
  have room := unstamped_empty_slot (cache.sets (indexOf cache (addrAt traces currentIdx)))
  have victim := unstamped_scan cache traces currentIdx (cache.sets (indexOf cache (addrAt traces currentIdx))) 0 0 0
  have index : indexOf cache.unstamped (addrAt traces currentIdx) = indexOf cache (addrAt traces currentIdx) := rfl
  have tag : tagOf cache.unstamped (addrAt traces currentIdx) = tagOf cache (addrAt traces currentIdx) := rfl
  have lines (set : Nat) : cache.unstamped.sets set = (cache.sets set).map unstamp := rfl
  simp only [cacheAccess, index, tag, lines, hit, room, victimOf, findOptimalVictim, victim]
  split
  · simp only [CacheLevel.unstamped]
    congr 1
    exact unstamped_update cache _ _ _ _ fun _ => rfl
  · split
    · simp only [CacheLevel.unstamped]
      congr 1
      exact unstamped_update cache _ _ _ _ fun _ => rfl
    · simp only [CacheLevel.unstamped]
      congr 1
      exact unstamped_update cache _ _ _ _ fun _ => rfl

end Unstamped

section Same

theorem resident_iff (cache : CacheLevel) (line : Nat) :
    Resident cache line ↔ line ∈ residentLines cache (line % cache.numSets) := by
  rw [residentLines, mem_lines_of]
  constructor
  · rintro ⟨i, entry, found, valid, stored⟩
    exact ⟨entry, List.mem_of_getElem? found, valid, stored⟩
  · rintro ⟨entry, member, valid, stored⟩
    obtain ⟨i, found⟩ := List.mem_iff_getElem?.mp member
    exact ⟨i, entry, found, valid, stored⟩

theorem unstamped_resident (cache : CacheLevel) (line : Nat) : Resident cache.unstamped line ↔ Resident cache line := by
  rw [resident_iff, resident_iff, residentLines, residentLines, mem_lines_of, mem_lines_of]
  simp only [CacheLevel.unstamped, List.mem_map, exists_exists_and_eq_and]
  rfl

theorem same_of_unstamped (first second : CacheLevel) (same : first.unstamped = second.unstamped) : SameLevel first second := by
  refine ⟨?_, ?_, fun line => ?_⟩
  · change first.unstamped.hits = second.unstamped.hits
    rw [same]
  · change first.unstamped.misses = second.unstamped.misses
    rw [same]
  · rw [← unstamped_resident first, ← unstamped_resident second, same]

theorem same_of_follows (first second : CacheLevel) (timer later : Nat) (reference : Lru.Reference)
    (one : Follows first timer reference) (two : Follows second later reference) (sets : first.numSets = second.numSets) :
    SameLevel first second := by
  refine ⟨one.hits.trans two.hits.symm, one.misses.trans two.misses.symm, fun line => ?_⟩
  rw [resident_iff, resident_iff, sets]
  have here := recent_lines first (line % second.numSets) timer _ _ (one.recent _)
  have there := recent_lines second (line % second.numSets) later _ _ (two.recent _)
  exact (here.symm.trans there).mem_iff

end Same

section Iteration

variable (p q : Parameters) (traces : List MemAccess) (deepens : Deepens p q) (i : Nat)

include deepens

theorem deeper_present (lvl : Fin 3) (present : p.present lvl) : q.present lvl :=
  Nat.lt_of_lt_of_le present deepens.more

theorem deeper_sets (lvl : Fin 3) (present : p.present lvl) : setCount q lvl = setCount p lvl := by
  rw [setCount, setCount, deepens.lineSize, deepens.assoc lvl present, deepens.lvlSize lvl present]

variable (accepted : Accepted p) (deeper : Accepted q)
  (same : ∀ lvl, p.present lvl → SameLevel ((simulate p traces i).level lvl) ((simulate q traces i).level lvl))

include accepted deeper same

theorem deeper_holds (lvl : Fin 3) (present : p.present lvl) : holdsAt p traces i lvl = holdsAt q traces i lvl := by
  have line : lineAt p traces i = lineAt q traces i := by
    rw [lineAt, lineAt, memoryLine, memoryLine, deepens.lineSize]
  rw [Bool.eq_iff_iff, holds_at_iff p traces accepted lvl present i,
    holds_at_iff q traces deeper lvl (deeper_present p q deepens lvl present) i, line]
  exact (same lvl present).resident _

theorem deeper_passes (lvl : Fin 3) (present : p.present lvl) :
    passesOn p traces i (simulate p traces i) lvl = passesOn q traces i (simulate q traces i) lvl := by
  rw [passes_on_holds, passes_on_holds, deeper_holds p q traces deepens i accepted deeper same lvl present, hitsAt, hitsAt,
    (same lvl present).hits]

theorem deeper_reaches (lvl : Fin 3) (present : p.present lvl) : reachesAt p traces i lvl = reachesAt q traces i lvl := by
  have passes := deeper_passes p q traces deepens i accepted deeper same
  have more := deepens.more
  have second : 1 < p.numLvls → reachesAt p traces i 1 = reachesAt q traces i 1 := by
    intro two
    rw [l1_passes_on p traces two, l1_passes_on q traces (by omega), passes 0 (show 0 < p.numLvls by omega)]
    rfl
  cases lvl using level_cases with
  | l1 => rfl
  | l2 => exact second present
  | l3 =>
      have three : 2 < p.numLvls := present
      rw [l2_passes_on p traces three, l2_passes_on q traces (by omega), second (by omega), passes 1 (show 1 < p.numLvls by omega)]

theorem deeper_levels : levelsReached p traces i (simulate p traces i) ≤ levelsReached q traces i (simulate q traces i) := by
  have fewer (lvl : Fin 3) :
      (reaches p traces i (simulate p traces i) lvl).toNat ≤ (reaches q traces i (simulate q traces i) lvl).toNat := by
    by_cases present : p.present lvl
    · exact Nat.le_of_eq (congrArg Bool.toNat (deeper_reaches p q traces deepens i accepted deeper same lvl present))
    · cases reached : reaches p traces i (simulate p traces i) lvl with
      | false => exact Nat.zero_le _
      | true => exact absurd (reaches_present p traces i _ (l1_present p accepted) lvl reached) present
  have second := fewer 1
  have third := fewer 2
  rw [levelsReached, levelsReached]
  omega

end Iteration

section Runs

variable (p q : Parameters) (traces : List MemAccess) (deepens : Deepens p q) (accepted : Accepted p) (deeper : Accepted q)

include deepens

theorem deeper_stream (n : Nat) (lvl : Fin 3) (present : p.present lvl) : streamTo q traces n lvl = streamTo p traces n lvl := by
  have first : lineStream q traces n = lineStream p traces n := by
    rw [lineStream, lineStream, deepens.lineSize]
  have same (upper : Fin 3) (above : p.present upper) : reference q upper = reference p upper := by
    funext stream
    rw [reference, reference, deeper_sets p q deepens upper above, deepens.assoc upper above]
  cases lvl using level_cases with
  | l1 => exact first
  | l2 =>
      have two : 1 < p.numLvls := present
      rw [streamTo, streamTo, first, same 0 (show 0 < p.numLvls by omega)]
  | l3 =>
      have three : 2 < p.numLvls := present
      rw [streamTo, streamTo, first, same 0 (show 0 < p.numLvls by omega), same 1 (show 1 < p.numLvls by omega)]

include accepted deeper

theorem deeper_follows (lru : p.policy = .lru) (n : Nat) (inTrace : n ≤ traces.length) (few : accessCalls q traces n < 2 ^ 32)
    (fewer : accessCalls p traces n ≤ accessCalls q traces n) (lvl : Fin 3) (present : p.present lvl) :
    SameLevel ((simulate p traces n).level lvl) ((simulate q traces n).level lvl) := by
  have below := deeper_present p q deepens lvl present
  have one := run_follows p traces accepted lru n inTrace (by omega) lvl present
  have two := run_follows q traces deeper (deepens.policy.trans lru) n inTrace few lvl below
  have reference : referenceTo q traces n lvl = referenceTo p traces n lvl := by
    rw [referenceTo, referenceTo, deeper_stream p q traces deepens n lvl present, reference, reference,
      deeper_sets p q deepens lvl present, deepens.assoc lvl present]
  rw [reference] at two
  refine same_of_follows _ _ _ _ _ one two ?_
  rw [(simulate_of_level p traces lvl accepted present n).sets, (simulate_of_level q traces lvl deeper below n).sets,
    deeper_sets p q deepens lvl present]

theorem deeper_calls (lru : p.policy = .lru) (n : Nat) (inTrace : n ≤ traces.length) (few : accessCalls q traces n < 2 ^ 32) :
    accessCalls p traces n ≤ accessCalls q traces n := by
  induction n with
  | zero => exact Nat.le_refl _
  | succ n ih =>
      have grows : accessCalls q traces n ≤ accessCalls q traces (n + 1) := Nat.le_add_right _ _
      have fewer := ih (by omega) (by omega)
      have same := deeper_follows p q traces deepens accepted deeper lru n (by omega) (by omega) fewer
      exact Nat.add_le_add fewer (deeper_levels p q traces deepens n accepted deeper same)

theorem deeper_unstamped (optimal : p.policy = .optimal) (n : Nat) (lvl : Fin 3) (present : p.present lvl) :
    ((simulate p traces n).level lvl).unstamped = ((simulate q traces n).level lvl).unstamped := by
  induction n generalizing lvl with
  | zero =>
      rw [simulate, simulate, start_level p lvl present, start_level q lvl (deeper_present p q deepens lvl present), cacheInit, cacheInit,
        deepens.lineSize, deepens.assoc lvl present, deepens.lvlSize lvl present]
  | succ n ih =>
      have reached := deeper_reaches p q traces deepens n accepted deeper
        (fun lvl present => same_of_unstamped _ _ (ih lvl present)) lvl present
      rw [reachesAt, reachesAt] at reached
      rw [simulate, simulate, step_level, step_level, reached]
      split
      · rw [served, served, deepens.policy, optimal, unstamped_access _ 0, ih lvl present]
        exact (unstamped_access _ 0 _ traces n).symm
      · exact ih lvl present

theorem deeper_same (n : Nat) (inTrace : n ≤ traces.length) (few : p.policy = .lru → accessCalls q traces n < 2 ^ 32) (lvl : Fin 3)
    (present : p.present lvl) : SameLevel ((simulate p traces n).level lvl) ((simulate q traces n).level lvl) := by
  cases policy : p.policy with
  | lru =>
      have fewer := deeper_calls p q traces deepens accepted deeper policy n inTrace (few policy)
      exact deeper_follows p q traces deepens accepted deeper policy n inTrace (few policy) fewer lvl present
  | optimal => exact same_of_unstamped _ _ (deeper_unstamped p q traces deepens accepted deeper policy n lvl present)

end Runs

theorem misses_shrink (p : Parameters) (traces : List MemAccess) (n : Nat) (upper lower : Fin 3) (order : upper ≤ lower)
    (present : p.present lower) :
    ((simulate p traces n).level lower).misses ≤ ((simulate p traces n).level upper).misses := by
  have second (two : 1 < p.numLvls) : ((simulate p traces n).level 1).misses ≤ ((simulate p traces n).level 0).misses := by
    rw [misses_arrive_or_lost p traces 0 1 (l1_passes_on p traces two) n]
    omega
  have third (three : 2 < p.numLvls) : ((simulate p traces n).level 2).misses ≤ ((simulate p traces n).level 1).misses := by
    rw [misses_arrive_or_lost p traces 1 2 (l2_passes_on p traces three) n]
    omega
  cases lower using level_cases with
  | l1 =>
      obtain rfl := Fin.le_zero_iff.mp order
      exact Nat.le_refl _
  | l2 =>
      cases upper using level_cases with
      | l1 => exact second present
      | l2 => exact Nat.le_refl _
      | l3 => exact absurd order (by decide)
  | l3 =>
      have three : 2 < p.numLvls := present
      cases upper using level_cases with
      | l1 => exact (third three).trans (second (by omega))
      | l2 => exact third three
      | l3 => exact Nat.le_refl _

-- Levels added below change nothing above them, and do not make the visits to
-- RAM more.
theorem deeper_levels_leave_upper (p q : Parameters) (traces : List MemAccess) (deepens : Deepens p q) (accepted : Accepted p)
    (deeper : Accepted q) (n : Nat) (inTrace : n ≤ traces.length) (few : p.policy = .lru → accessCalls q traces n < 2 ^ 32) :
    (∀ lvl, p.present lvl → SameLevel ((simulate p traces n).level lvl) ((simulate q traces n).level lvl)) ∧
      ramVisits q (simulate q traces n) ≤ ramVisits p (simulate p traces n) := by
  have same := deeper_same p q traces deepens accepted deeper n inTrace few
  obtain ⟨last, count⟩ := last_level p accepted
  obtain ⟨lowest, total⟩ := last_level q deeper
  have more := deepens.more
  have present : p.present last := show last.val < p.numLvls by omega
  refine ⟨same, ?_⟩
  rw [ram_visits_misses p traces n last count, ram_visits_misses q traces n lowest total, (same last present).misses]
  exact misses_shrink q traces n last lowest (show last.val ≤ lowest.val by omega) (show lowest.val < q.numLvls by omega)

theorem deeper_levels_leave_upper_three :
    SameLevel ((simulate { threeLevels with numLvls := 1 } (readsAt [0, 32, 64, 0]) 4).level 0)
        ((simulate threeLevels (readsAt [0, 32, 64, 0]) 4).level 0) ∧
      ramVisits threeLevels (simulate threeLevels (readsAt [0, 32, 64, 0]) 4) ≤ 4 := by
  obtain ⟨same, visits⟩ := deeper_levels_leave_upper { threeLevels with numLvls := 1 } threeLevels (readsAt [0, 32, 64, 0])
    ⟨by decide, rfl, rfl, fun _ _ => rfl, fun _ _ => rfl⟩ ⟨by decide, by decide, by decide, by decide⟩ three_levels_accepted 4
    (by decide) (fun _ => by decide)
  exact ⟨same 0 (by decide), visits.trans (by decide)⟩

end CpuEmulator.Cache
