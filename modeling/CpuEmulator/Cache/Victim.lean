import CpuEmulator.Cache.Access

set_option autoImplicit false

namespace CpuEmulator.Cache

theorem lru_scan_result (rest : List CacheLine) (i minTime victim : Nat) :
    (lruScan rest i minTime victim = victim ∧ ∀ other ∈ rest, minTime ≤ other.lastUsed) ∨
      ∃ k line, rest[k]? = some line ∧ lruScan rest i minTime victim = i + k ∧ line.lastUsed < minTime ∧
        ∀ other ∈ rest, line.lastUsed ≤ other.lastUsed := by
  induction rest generalizing i minTime victim with
  | nil => exact Or.inl ⟨rfl, fun other none => by cases none⟩
  | cons head rest ih =>
      rw [lruScan]
      by_cases older : head.lastUsed < minTime
      · rw [if_pos older]
        apply Or.inr
        rcases ih (i + 1) head.lastUsed i with ⟨result, least⟩ | ⟨k, line, found, result, before, least⟩
        · refine ⟨0, head, rfl, result, older, fun other resident => ?_⟩
          rcases List.mem_cons.mp resident with rfl | resident
          · exact Nat.le_refl _
          · exact least other resident
        · refine ⟨k + 1, line, found, by rw [result]; omega, by omega, fun other resident => ?_⟩
          rcases List.mem_cons.mp resident with rfl | resident
          · exact Nat.le_of_lt before
          · exact least other resident
      · rw [if_neg older]
        rcases ih (i + 1) minTime victim with ⟨result, least⟩ | ⟨k, line, found, result, before, least⟩
        · refine Or.inl ⟨result, fun other resident => ?_⟩
          rcases List.mem_cons.mp resident with rfl | resident
          · omega
          · exact least other resident
        · refine Or.inr ⟨k + 1, line, found, by rw [result]; omega, before, fun other resident => ?_⟩
          rcases List.mem_cons.mp resident with rfl | resident
          · omega
          · exact least other resident

theorem lru_victim_oldest (lines : List CacheLine) (known : CacheLine) (resident : known ∈ lines)
    (early : known.lastUsed < uint32Max) :
    ∃ line, lines[lruScan lines 0 uint32Max 0]? = some line ∧ ∀ other ∈ lines, line.lastUsed ≤ other.lastUsed := by
  rcases lru_scan_result lines 0 uint32Max 0 with ⟨_, least⟩ | ⟨k, line, found, result, _, least⟩
  · exact absurd (least known resident) (Nat.not_le_of_lt early)
  · refine ⟨line, ?_, least⟩
    rw [result, Nat.zero_add]
    exact found

theorem lru_victim_below (lines : List CacheLine) (filled : 0 < lines.length) : lruScan lines 0 uint32Max 0 < lines.length := by
  rcases lru_scan_result lines 0 uint32Max 0 with ⟨result, _⟩ | ⟨k, line, found, result, _⟩
  · rw [result]
    exact filled
  · rw [result, Nat.zero_add]
    exact (List.getElem?_eq_some_iff.mp found).1

section Optimal

variable (cache : CacheLevel) (traces : List MemAccess) (currentIdx : Nat)

-- How far ahead a tag occurs again, in whatever set; the length of the rest of
-- the trace when it does not.
def tagUse (tag : U64) : Nat :=
  ((traces.drop (currentIdx + 1)).map (fun access => tagOf cache access.addr)).idxOf tag

theorem tag_use_le (tag : U64) : tagUse cache traces currentIdx tag ≤ (traces.drop (currentIdx + 1)).length := by
  rw [tagUse]
  exact Nat.le_trans List.idxOf_le_length (Nat.le_of_eq (List.length_map _))

theorem next_use_position (tag : U64) : nextUse cache tag traces currentIdx =
    if tagUse cache traces currentIdx tag < (traces.drop (currentIdx + 1)).length then
      some (tagUse cache traces currentIdx tag + (currentIdx + 1)) else none := by
  have position : tagUse cache traces currentIdx tag =
      (traces.drop (currentIdx + 1)).findIdx (fun access => tagOf cache access.addr == tag) := by
    rw [tagUse, List.idxOf, List.findIdx_map]
    rfl
  rw [nextUse, position]
  split
  · rename_i inside
    rw [List.findIdx?_eq_some_iff_findIdx_eq.mpr ⟨inside, rfl⟩, Option.map_some]
  · rename_i beyond
    have none : (traces.drop (currentIdx + 1)).findIdx? (fun access => tagOf cache access.addr == tag) = none := by
      rw [List.findIdx?_eq_none_iff_findIdx_eq]
      have bound : (traces.drop (currentIdx + 1)).findIdx (fun access => tagOf cache access.addr == tag) ≤ _ :=
        List.findIdx_le_length
      omega
    rw [none, Option.map_none]

theorem optimal_scan_result (rest : List CacheLine) (i furthest victim : Nat) :
    (optimalScan cache traces currentIdx rest i furthest victim = victim ∧
        ∀ other ∈ rest, ∃ next, nextUse cache other.tag traces currentIdx = some next ∧ next ≤ furthest) ∨
      ∃ k line, rest[k]? = some line ∧ optimalScan cache traces currentIdx rest i furthest victim = i + k ∧
        (nextUse cache line.tag traces currentIdx = none ∨
          ∃ last, nextUse cache line.tag traces currentIdx = some last ∧ furthest < last ∧
            ∀ other ∈ rest, ∃ next, nextUse cache other.tag traces currentIdx = some next ∧ next ≤ last) := by
  induction rest generalizing i furthest victim with
  | nil => exact Or.inl ⟨rfl, fun other none => by cases none⟩
  | cons head rest ih =>
      rw [optimalScan]
      cases use : nextUse cache head.tag traces currentIdx with
      | none => exact Or.inr ⟨0, head, rfl, rfl, Or.inl use⟩
      | some next =>
          dsimp only
          by_cases later : furthest < next
          · rw [if_pos later]
            apply Or.inr
            rcases ih (i + 1) next i with ⟨result, before⟩ | ⟨k, line, found, result, unused | ⟨last, at_, after, before⟩⟩
            · refine ⟨0, head, rfl, result, Or.inr ⟨next, use, later, fun other resident => ?_⟩⟩
              rcases List.mem_cons.mp resident with rfl | resident
              · exact ⟨next, use, Nat.le_refl _⟩
              · exact before other resident
            · exact ⟨k + 1, line, found, by rw [result]; omega, Or.inl unused⟩
            · refine ⟨k + 1, line, found, by rw [result]; omega, Or.inr ⟨last, at_, by omega, fun other resident => ?_⟩⟩
              rcases List.mem_cons.mp resident with rfl | resident
              · exact ⟨next, use, by omega⟩
              · exact before other resident
          · rw [if_neg later]
            rcases ih (i + 1) furthest victim with
              ⟨result, before⟩ | ⟨k, line, found, result, unused | ⟨last, at_, after, before⟩⟩
            · refine Or.inl ⟨result, fun other resident => ?_⟩
              rcases List.mem_cons.mp resident with rfl | resident
              · exact ⟨next, use, by omega⟩
              · exact before other resident
            · exact Or.inr ⟨k + 1, line, found, by rw [result]; omega, Or.inl unused⟩
            · refine Or.inr ⟨k + 1, line, found, by rw [result]; omega,
                Or.inr ⟨last, at_, after, fun other resident => ?_⟩⟩
              rcases List.mem_cons.mp resident with rfl | resident
              · exact ⟨next, use, by omega⟩
              · exact before other resident

theorem optimal_victim_latest_tag (lines : List CacheLine) (filled : 0 < lines.length) :
    ∃ line, lines[findOptimalVictim cache lines traces currentIdx]? = some line ∧
      ∀ other ∈ lines, tagUse cache traces currentIdx other.tag ≤ tagUse cache traces currentIdx line.tag := by
  have first := List.getElem_mem filled
  rcases optimal_scan_result cache traces currentIdx lines 0 0 0 with
    ⟨_, before⟩ | ⟨k, line, found, result, unused | ⟨last, use, _, before⟩⟩
  · -- No position is 0, so the initial bound cannot survive a set with lines.
    obtain ⟨next, use, zero⟩ := before _ first
    rw [next_use_position] at use
    split at use
    · have position := Option.some.inj use
      omega
    · cases use
  · refine ⟨line, by rw [findOptimalVictim, result, Nat.zero_add, found], fun other _ => ?_⟩
    rw [next_use_position] at unused
    split at unused
    · cases unused
    · have bound := tag_use_le cache traces currentIdx other.tag
      omega
  · refine ⟨line, by rw [findOptimalVictim, result, Nat.zero_add, found], fun other resident => ?_⟩
    obtain ⟨next, otherUse, order⟩ := before other resident
    rw [next_use_position] at use otherUse
    split at use
    · split at otherUse
      · have here := Option.some.inj use
        have there := Option.some.inj otherUse
        omega
      · cases otherUse
    · cases use

theorem tag_use_injective (first second : U64)
    (used : tagUse cache traces currentIdx first < (traces.drop (currentIdx + 1)).length)
    (same : tagUse cache traces currentIdx first = tagUse cache traces currentIdx second) : first = second := by
  rw [tagUse, ← List.length_map (fun access => tagOf cache access.addr)] at used
  exact (List.idxOf_inj (List.idxOf_lt_length_iff.mp used)).mp same

end Optimal

theorem victim_below (policy : ReplacementPolicy) (cache : CacheLevel) (lines : List CacheLine) (traces : List MemAccess)
    (currentIdx : Nat) (filled : 0 < lines.length) : victimOf policy cache lines traces currentIdx < lines.length := by
  cases policy with
  | lru => exact lru_victim_below lines filled
  | optimal =>
      obtain ⟨line, found, _⟩ := optimal_victim_latest_tag cache traces currentIdx lines filled
      exact (List.getElem?_eq_some_iff.mp found).1

end CpuEmulator.Cache
