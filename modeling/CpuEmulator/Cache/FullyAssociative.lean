import CpuEmulator.Cache.Compulsory
import CpuEmulator.Cache.Optimality
import Mathlib.Algebra.Order.BigOperators.Group.Finset

set_option autoImplicit false

namespace CpuEmulator.Cache

open Library

section Held

variable (cache : CacheLevel)

def heldLines : Finset Nat := (Finset.range cache.numSets).biUnion fun set => (residentLines cache set).toFinset

theorem mem_held_lines (shaped : Shaped cache) (line : Nat) : line ∈ heldLines cache ↔ Resident cache line := by
  rw [heldLines, Finset.mem_biUnion]
  constructor
  · rintro ⟨set, below, held⟩
    obtain ⟨entry, member, valid, stored⟩ := (mem_lines_of cache set _ line).mp (List.mem_toFinset.mp held)
    obtain ⟨i, inside, found⟩ := List.getElem_of_mem member
    have keeps : Keeps cache set i line := ⟨entry, by rw [List.getElem?_eq_getElem inside, found], valid, stored⟩
    refine ⟨i, ?_⟩
    rw [keeps_set cache i set line (Finset.mem_range.mp below) keeps]
    exact keeps
  · rintro ⟨i, entry, found, valid, stored⟩
    refine ⟨line % cache.numSets, Finset.mem_range.mpr (Nat.mod_lt _ (num_sets_pos cache shaped)), ?_⟩
    rw [List.mem_toFinset]
    exact (mem_lines_of cache _ _ line).mpr ⟨entry, List.mem_of_getElem? found, valid, stored⟩

theorem held_lines_bounded (sound : Sound cache) : (heldLines cache).card ≤ cache.numSets * cache.associativity := by
  have each : (heldLines cache).card ≤ (Finset.range cache.numSets).card * cache.associativity := by
    apply Finset.card_biUnion_le_card_mul
    intro set _
    have slots := lines_of_length cache set (cache.sets set)
    rw [sound.slots] at slots
    exact (List.toFinset_card_le _).trans slots
  rwa [Finset.card_range] at each

theorem access_demands (policy : ReplacementPolicy) (globalTimer : Nat) (traces : List MemAccess) (i : Nat) (sound : Sound cache) :
    heldLines (cacheAccess policy globalTimer cache traces i).2 ⊆ insert (lineOf cache (addrAt traces i)) (heldLines cache) ∧
      lineOf cache (addrAt traces i) ∈ heldLines (cacheAccess policy globalTimer cache traces i).2 ∧
      (cacheAccess policy globalTimer cache traces i).2.misses =
        cache.misses + if lineOf cache (addrAt traces i) ∈ heldLines cache then 0 else 1 := by
  have shaped := sound.shaped
  have kept := access_sound policy globalTimer cache traces i sound
  rw [(access_counters policy globalTimer cache traces i).2]
  obtain ⟨slot, hit, wrote, done⟩ := sound_access_slot policy globalTimer cache traces i sound
  have after : (cacheAccess policy globalTimer cache traces i).2 =
    written cache (addrAt traces i) ((globalTimer + 1) % 2 ^ 32) slot hit := done
  rw [after] at kept ⊢
  refine ⟨?_, ?_, ?_⟩
  · intro line member
    rw [mem_held_lines _ kept.shaped, resident_step cache _ _ slot hit sound wrote] at member
    rw [Finset.mem_insert, mem_held_lines cache shaped]
    rcases member with new | old
    · exact Or.inl new.2.symm
    · exact Or.inr old.1
  · rw [mem_held_lines _ kept.shaped]
    exact written_resident cache _ _ slot hit shaped (slot_inside slot hit _ _ wrote)
  · rw [if_congr ((mem_held_lines cache shaped _).trans (holds_line_resident cache _ shaped).symm) rfl rfl]
    cases holdsLine cache (addrAt traces i) <;> rfl

end Held

section Level

variable (p : Parameters) (traces : List MemAccess) (lvl : Fin 3) (accepted : Accepted p) (present : p.present lvl)
include accepted present

theorem level_demands (n d i : Nat) (split : i + d = n) :
    ∃ final cost, Paging.Demand (setCount p lvl * p.assoc lvl) (heldLines ((simulate p traces i).level lvl))
        (ownStream p traces lvl i n) final cost ∧
      ((simulate p traces n).level lvl).misses = ((simulate p traces i).level lvl).misses + cost := by
  induction d generalizing i with
  | zero =>
      obtain rfl : i = n := split
      rw [own_stream_end]
      exact ⟨_, 0, .nil _, rfl⟩
  | succ d ih =>
      obtain ⟨final, cost, ran, total⟩ := ih (i + 1) (by omega)
      rw [own_stream_step p traces lvl i n (by omega)]
      cases reached : reaches p traces i (simulate p traces i) lvl with
      | true =>
          have of := simulate_of_level p traces lvl accepted present i
          have next := simulate_of_level p traces lvl accepted present (i + 1)
          have shape : (simulate p traces (i + 1)).level lvl = served p traces i (simulate p traces i) lvl := by
            rw [simulate, step_level, if_pos reached]
          obtain ⟨taken, held, step⟩ := access_demands _ p.policy (timerAt (simulate p traces i) lvl) traces i of.sound
          have bounded := held_lines_bounded _ next.sound
          rw [next.sets, next.ways] at bounded
          rw [← served, ← shape, line_of_trace p traces lvl _ i of] at taken held step
          rw [if_pos rfl]
          exact ⟨final, _, .cons _ _ final _ _ cost taken held bounded ran, by omega⟩
      | false =>
          have shape : (simulate p traces (i + 1)).level lvl = (simulate p traces i).level lvl := by
            rw [simulate, step_level, reached, if_neg Bool.false_ne_true]
          rw [shape] at ran total
          rw [if_neg Bool.false_ne_true]
          exact ⟨final, cost, ran, total⟩

theorem level_run_demands (n : Nat) : ∃ final, Paging.Demand (setCount p lvl * p.assoc lvl) ∅ (ownStream p traces lvl 0 n) final
    ((simulate p traces n).level lvl).misses := by
  obtain ⟨final, cost, ran, total⟩ := level_demands p traces lvl accepted present n n 0 (Nat.zero_add n)
  obtain ⟨_, shaped, done⟩ := init_shaped p lvl accepted present
  have start : (simulate p traces 0).level lvl = (cacheInit p lvl).1 := start_level p lvl present
  have none : heldLines (cacheInit p lvl).1 = ∅ := by
    rw [Finset.eq_empty_iff_forall_notMem]
    intro line held
    obtain ⟨i, entry, found, valid, _⟩ := (mem_held_lines _ shaped line).mp held
    rw [done] at found
    rw [(List.mem_replicate.mp (List.mem_of_getElem? found)).2] at valid
    cases valid
  rw [start, none] at ran
  rw [start, done, Nat.zero_add] at total
  rw [total]
  exact ⟨final, ran⟩

end Level

theorem capacity_of_size (p : Parameters) (accepted : Accepted p) : setCount p 0 * p.assoc 0 = p.lvlSize 0 / p.lineSize := by
  have present := l1_present p accepted
  obtain ⟨lineBits, _, line⟩ := line_size_exponent p accepted
  obtain ⟨wayBits, _, ways⟩ := assoc_exponent p 0 accepted present
  obtain ⟨sizeBits, _, size, large⟩ := lvl_size_exponent p 0 accepted present
  rw [ways, line, size, ← Nat.pow_add] at large
  have order := (Nat.pow_le_pow_iff_right Nat.one_lt_two).mp large
  rw [setCount, ways, line, size, ← Nat.pow_add, Nat.pow_div (by omega) Nat.zero_lt_two,
    Nat.pow_div (by omega) Nat.zero_lt_two, ← Nat.pow_add]
  congr 1
  omega

theorem own_stream_same_lines (p q : Parameters) (traces : List MemAccess) (line : q.lineSize = p.lineSize) (n : Nat) :
    ownStream q traces 0 0 n = ownStream p traces 0 0 n := by
  have number : traceLine q traces = traceLine p traces := funext fun i => by rw [traceLine, line, traceLine]
  rw [ownStream, ownStream, number]
  rfl

-- Under the optimal policy one set of all the lines is the best a first level of
-- its size can be: another associativity or policy, or a smaller size, saves nothing.
theorem optimal_l1_beats_any_l1 (p q : Parameters) (traces : List MemAccess) (n : Nat) (acceptedP : Accepted p)
    (acceptedQ : Accepted q) (optimal : p.policy = .optimal) (fullyAssociative : p.lvlSize 0 = p.assoc 0 * p.lineSize)
    (line : q.lineSize = p.lineSize) (size : q.lvlSize 0 ≤ p.lvlSize 0) (inTrace : n ≤ traces.length) :
    (simulate p traces n).l1.misses ≤ (simulate q traces n).l1.misses := by
  have single := single_set_of_size p acceptedP fullyAssociative
  have ways := capacity_of_size p acceptedP
  rw [single, Nat.one_mul] at ways
  have room : setCount q 0 * q.assoc 0 ≤ p.assoc 0 := by
    rw [capacity_of_size q acceptedQ, ways, line]
    exact Nat.div_le_div_right size
  obtain ⟨final, ran⟩ := level_run_furthest p traces 0 acceptedP (l1_present p acceptedP) single n inTrace
    (fun i _ _ => l1_victim_furthest_here p traces acceptedP optimal single i)
  obtain ⟨other, demands⟩ := level_run_demands q traces 0 acceptedQ (l1_present q acceptedQ) n
  rw [own_stream_same_lines p q traces line] at demands
  exact Paging.furthest_run_beats_demand (p.assoc 0) _ _ final other _ _ room ran demands

def twoSets : Parameters := ⟨1, 16, fun _ => 1, fun _ => 32, .lru⟩

theorem optimal_l1_beats_any_l1_two_sets :
    (simulate oneSet (readsAt [0, 32, 0, 32]) 4).l1.misses ≤ (simulate twoSets (readsAt [0, 32, 0, 32]) 4).l1.misses :=
  optimal_l1_beats_any_l1 oneSet twoSets (readsAt [0, 32, 0, 32]) 4 one_set_accepted
    ⟨by decide, by decide, by decide, by decide⟩ rfl rfl rfl (Nat.le_refl 32) (Nat.le_refl 4)

end CpuEmulator.Cache
