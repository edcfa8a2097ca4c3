import CpuEmulator.Cache.Hierarchy

set_option autoImplicit false

namespace CpuEmulator.Cache

-- own is any other measure of how late a resident line is needed again. Tags that
-- never occur again tie.
theorem optimal_choice_iff (cache : CacheLevel) (traces : List MemAccess) (currentIdx : Nat) (lines : List CacheLine)
    (own : CacheLine → Nat) (filled : 0 < lines.length)
    (sameTag : ∀ first second : CacheLine, first.tag = second.tag → own first = own second)
    (never : ∀ line ∈ lines, tagUse cache traces currentIdx line.tag = (traces.drop (currentIdx + 1)).length →
      ∀ other ∈ lines, own other ≤ own line) :
    (∃ victim ∈ lines[findOptimalVictim cache lines traces currentIdx]?, ∀ line ∈ lines, own line ≤ own victim) ↔
      ∃ latest ∈ lines, (∀ line ∈ lines, tagUse cache traces currentIdx line.tag ≤ tagUse cache traces currentIdx latest.tag) ∧
        ∀ line ∈ lines, own line ≤ own latest := by
  obtain ⟨chosen, found, tagLatest⟩ := optimal_victim_latest_tag cache traces currentIdx lines filled
  have resident : chosen ∈ lines := List.mem_of_getElem? found
  rw [found]
  constructor
  · rintro ⟨victim, same, latest⟩
    obtain rfl := Option.some.inj same
    exact ⟨chosen, resident, tagLatest, latest⟩
  · rintro ⟨latest, member, byTag, byOwn⟩
    refine ⟨chosen, rfl, ?_⟩
    have tie : tagUse cache traces currentIdx chosen.tag = tagUse cache traces currentIdx latest.tag :=
      Nat.le_antisymm (byTag chosen resident) (tagLatest latest member)
    by_cases used : tagUse cache traces currentIdx chosen.tag < (traces.drop (currentIdx + 1)).length
    · rw [sameTag chosen latest (tag_use_injective cache traces currentIdx _ _ used tie)]
      exact byOwn
    · have bound := tag_use_le cache traces currentIdx chosen.tag
      exact never chosen resident (by omega)

section FutureLines

variable (cache : CacheLevel) (traces : List MemAccess) (currentIdx : Nat)

def nextAccess (line : Nat) : Nat :=
  ((traces.drop (currentIdx + 1)).map (fun access => lineOf cache access.addr)).idxOf line

theorem stored_line_tag (set : Nat) (line : CacheLine) (shaped : Shaped cache) (below : set < cache.numSets)
    (address : U64) (same : lineOf cache address = storedLine cache set line) : tagOf cache address = line.tag := by
  rw [← BitVec.toNat_inj, tag_of_line cache address shaped, same, storedLine, Nat.mul_comm, Nat.mul_add_div (num_sets_pos cache shaped),
    Nat.div_eq_of_lt below, Nat.add_zero]

theorem unused_tag_unused_line (set : Nat) (line : CacheLine) (shaped : Shaped cache) (below : set < cache.numSets)
    (unused : tagUse cache traces currentIdx line.tag = (traces.drop (currentIdx + 1)).length) :
    ∀ access ∈ traces.drop (currentIdx + 1), lineOf cache access.addr ≠ storedLine cache set line := by
  intro access later same
  rw [tagUse, ← List.length_map (fun access => tagOf cache access.addr), List.idxOf_eq_length_iff] at unused
  apply unused
  rw [← stored_line_tag cache set line shaped below access.addr same]
  exact List.mem_map_of_mem later

end FutureLines

def EvictsAt (cache : CacheLevel) (traces : List MemAccess) (i : Nat) : Prop :=
  Evicts (cache.sets (indexOf cache (addrAt traces i))) (tagOf cache (addrAt traces i))

instance (cache : CacheLevel) (traces : List MemAccess) (i : Nat) : Decidable (EvictsAt cache traces i) :=
  inferInstanceAs (Decidable (Evicts _ _))

def VictimFurthest (policy : ReplacementPolicy) (cache : CacheLevel) (traces : List MemAccess) (i : Nat) : Prop :=
  let set := indexOf cache (addrAt traces i)
  ∃ victim ∈ (cache.sets set)[victimAt policy cache traces i]?,
    ∀ line ∈ cache.sets set,
      nextAccess cache traces i (storedLine cache set line) ≤ nextAccess cache traces i (storedLine cache set victim)

instance (policy : ReplacementPolicy) (cache : CacheLevel) (traces : List MemAccess) (i : Nat) :
    Decidable (VictimFurthest policy cache traces i) := inferInstanceAs (Decidable (∃ _ ∈ _, _))

def LatestByTag (cache : CacheLevel) (traces : List MemAccess) (i : Nat) : Prop :=
  let set := indexOf cache (addrAt traces i)
  ∃ latest ∈ cache.sets set,
    (∀ line ∈ cache.sets set, tagUse cache traces i line.tag ≤ tagUse cache traces i latest.tag) ∧
      ∀ line ∈ cache.sets set,
        nextAccess cache traces i (storedLine cache set line) ≤ nextAccess cache traces i (storedLine cache set latest)

theorem victim_furthest_iff (cache : CacheLevel) (traces : List MemAccess) (i : Nat) (sound : Sound cache) :
    VictimFurthest .optimal cache traces i ↔ LatestByTag cache traces i := by
  apply optimal_choice_iff cache traces i _
    (fun line => nextAccess cache traces i (storedLine cache (indexOf cache (addrAt traces i)) line))
  · rw [sound.slots]
    exact sound.shaped.ways
  · intro first second same
    simp only [storedLine, same]
  · intro line _ unused other _
    have below := index_below cache (addrAt traces i) sound.shaped
    have absent := unused_tag_unused_line cache traces i _ line sound.shaped below unused
    have last : nextAccess cache traces i (storedLine cache (indexOf cache (addrAt traces i)) line) =
        ((traces.drop (i + 1)).map (fun access => lineOf cache access.addr)).length := by
      rw [nextAccess, List.idxOf_eq_length_iff, List.mem_map]
      rintro ⟨access, later, same⟩
      exact absent access later same
    rw [last]
    exact List.idxOf_le_length

theorem single_set_index (cache : CacheLevel) (shaped : Shaped cache) (single : cache.numSets = 1) (address : U64) :
    indexOf cache address = 0 := by
  rw [index_of_line cache address shaped, single, Nat.mod_one]

theorem single_set_use (cache : CacheLevel) (traces : List MemAccess) (i : Nat) (shaped : Shaped cache)
    (single : cache.numSets = 1) (line : CacheLine) :
    nextAccess cache traces i (storedLine cache 0 line) = tagUse cache traces i line.tag := by
  have same : (fun access : MemAccess => lineOf cache access.addr == storedLine cache 0 line) =
      fun access => tagOf cache access.addr == line.tag := by
    funext access
    have here := stored_line_here cache access.addr shaped line
    rw [single_set_index cache shaped single] at here
    rw [Bool.eq_iff_iff, beq_iff_eq, beq_iff_eq, eq_comm, here, eq_comm]
  rw [nextAccess, tagUse, List.idxOf, List.idxOf, List.findIdx_map, List.findIdx_map]
  exact congrArg (fun test => List.findIdx test (traces.drop (i + 1))) same

theorem single_set_latest (cache : CacheLevel) (traces : List MemAccess) (i : Nat) (sound : Sound cache)
    (single : cache.numSets = 1) : LatestByTag cache traces i := by
  have filled : 0 < (cache.sets 0).length := by
    rw [sound.slots]
    exact sound.shaped.ways
  obtain ⟨chosen, found, latest⟩ := optimal_victim_latest_tag cache traces i (cache.sets 0) filled
  simp only [LatestByTag]
  rw [single_set_index cache sound.shaped single]
  refine ⟨chosen, List.mem_of_getElem? found, latest, fun line member => ?_⟩
  rw [single_set_use cache traces i sound.shaped single, single_set_use cache traces i sound.shaped single]
  exact latest line member

-- Over the whole simulation, at every point where L1 evicts: the victim is the
-- line needed furthest ahead exactly when tag and line agree on which that is.
theorem l1_victims_furthest_iff (p : Parameters) (traces : List MemAccess) (accepted : Accepted p)
    (optimal : p.policy = .optimal) (n : Nat) :
    (∀ i, i < n → EvictsAt (simulate p traces i).l1 traces i →
        VictimFurthest p.policy (simulate p traces i).l1 traces i) ↔
      ∀ i, i < n → EvictsAt (simulate p traces i).l1 traces i → LatestByTag (simulate p traces i).l1 traces i := by
  have each : ∀ i, VictimFurthest p.policy (simulate p traces i).l1 traces i ↔ LatestByTag (simulate p traces i).l1 traces i := by
    intro i
    have present := l1_present p accepted
    rw [optimal]
    exact victim_furthest_iff _ traces i (simulate_of_level p traces 0 accepted present i).sound
  constructor
  · intro furthest i inTrace evicts
    exact (each i).mp (furthest i inTrace evicts)
  · intro latest i inTrace evicts
    exact (each i).mpr (latest i inTrace evicts)

-- Two sets of two ways. Lines 0, 2 and 4 share set 0; line 3, in set 1, has the
-- tag of line 2 and makes it look wanted earlier than line 0.
def sharedTags : Parameters := ⟨1, 16, fun _ => 2, fun _ => 64, .optimal⟩

theorem shared_tags_accepted : Accepted sharedTags := ⟨by decide, by decide, by decide, by decide⟩

def sharedTagReads : List MemAccess := [⟨0, 0⟩, ⟨32, 0⟩, ⟨64, 0⟩, ⟨48, 0⟩, ⟨0, 0⟩, ⟨32, 0⟩]

theorem shared_tag_misleads_victim :
    Accepted sharedTags ∧ sharedTags.policy = .optimal ∧
      EvictsAt (simulate sharedTags sharedTagReads 2).l1 sharedTagReads 2 ∧
      ¬ VictimFurthest sharedTags.policy (simulate sharedTags sharedTagReads 2).l1 sharedTagReads 2 :=
  ⟨shared_tags_accepted, rfl, by decide, by decide⟩

theorem l1_victims_furthest_iff_shared_tags :
    (∀ i, i < 3 → EvictsAt (simulate sharedTags sharedTagReads i).l1 sharedTagReads i →
        VictimFurthest sharedTags.policy (simulate sharedTags sharedTagReads i).l1 sharedTagReads i) ↔
      ∀ i, i < 3 → EvictsAt (simulate sharedTags sharedTagReads i).l1 sharedTagReads i →
        LatestByTag (simulate sharedTags sharedTagReads i).l1 sharedTagReads i :=
  l1_victims_furthest_iff sharedTags sharedTagReads shared_tags_accepted rfl 3

end CpuEmulator.Cache
