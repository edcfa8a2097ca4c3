import CpuEmulator.Cache.Accounting
import CpuEmulator.Cache.Entries

set_option autoImplicit false

namespace CpuEmulator.Cache

open Library

theorem holds_line_resident (cache : CacheLevel) (address : U64) (shaped : Shaped cache) :
    holdsLine cache address = true ↔ Resident cache (lineOf cache address) := by
  rw [holdsLine, Option.isSome_iff_exists]
  constructor
  · rintro ⟨i, slot⟩
    obtain ⟨entry, found, valid, same⟩ := hit_slot_some _ _ i slot
    refine ⟨i, entry, ?_, valid, ?_⟩
    · rw [line_set cache address shaped]
      exact found
    · rw [line_set cache address shaped]
      exact (stored_line_here cache address shaped entry).mpr same
  · rintro ⟨i, entry, found, valid, stored⟩
    rw [line_set cache address shaped] at found stored
    cases slot : hitSlot (cache.sets (indexOf cache address)) (tagOf cache address) with
    | some j => exact ⟨j, rfl⟩
    | none =>
        exact absurd ((stored_line_here cache address shaped entry).mp stored)
          (hit_slot_none _ _ slot entry (List.mem_of_getElem? found) valid)

section Iterations

variable (p : Parameters) (traces : List MemAccess)

def lineAt (i : Nat) : Nat := memoryLine p (addrAt traces i)

def seen (n : Nat) : Finset Nat := Paging.requested (lineAt p traces) n

variable (accepted : Accepted p)

include accepted in
theorem resident_seen (lvl : Fin 3) (present : p.present lvl) (n line : Nat)
    (resident : Resident ((simulate p traces n).level lvl) line) : line ∈ seen p traces n := by
  obtain ⟨calls, m, level, earlier⟩ := simulate_level_after p lvl traces accepted present n
  rw [level] at resident
  obtain ⟨j, below, brought, _⟩ := (resident_since p lvl traces calls accepted present m line).mp resident
  exact (Paging.mem_requested _ n line).mpr ⟨_, earlier j below, brought.2⟩

include accepted in
theorem holds_at_iff (lvl : Fin 3) (present : p.present lvl) (i : Nat) :
    holdsAt p traces i lvl = true ↔ Resident ((simulate p traces i).level lvl) (lineAt p traces i) := by
  have of := simulate_of_level p traces lvl accepted present i
  rw [holdsAt, holds_line_resident _ _ of.sound.shaped, line_of_level p lvl _ of, lineAt]

include accepted in
theorem first_access_misses (i : Nat) (first : lineAt p traces i ∉ seen p traces i) : missesEverywhere p traces i = true := by
  rw [missesEverywhere, decide_eq_true_iff]
  intro lvl present
  rw [Bool.eq_false_iff]
  intro held
  exact first (resident_seen p traces accepted lvl present i _ ((holds_at_iff p traces accepted lvl present i).mp held))

theorem none_lost_short (n : Nat) (short : n < 2 ^ 32) : NoneLost p traces n := by
  intro i below lvl _
  have counted := (level_counters p traces i lvl).1
  have bound : Nat.count (fun i => reachesAt p traces i lvl = true) i ≤ i := Nat.count_le _
  have small : ¬ 2 ^ 32 ≤ hitsAt p traces i lvl := by
    rw [hitsAt]
    omega
  rw [lostAt, decide_eq_false small, Bool.and_false]

include accepted in
theorem seen_le_ram_visits (n : Nat) (short : n < 2 ^ 32) : (seen p traces n).card ≤ ramVisits p (simulate p traces n) := by
  have accounted := accounted_of_kept p traces accepted n (none_lost_short p traces n short)
  rw [accounted.ram, seen, ← Paging.count_first_requests]
  exact Nat.count_mono_left fun i _ first => first_access_misses p traces accepted i first

def seenIn (n set : Nat) : Finset Nat := (seen p traces n).filter (fun line => line % setCount p 0 = set)

theorem full_set_overflows (cache : CacheLevel) (of : OfLevel p 0 cache) (n set line : Nat)
    (full : ∀ entry ∈ cache.sets set, entry.valid = true) (below : set < cache.numSets)
    (known : ∀ old, Resident cache old → old ∈ seen p traces n) (here : line % cache.numSets = set)
    (asked : line ∈ seen p traces n) (absent : ¬ Resident cache line) : p.assoc 0 < (seenIn p traces n set).card := by
  have lines : residentLines cache set = (cache.sets set).map (storedLine cache set) := lines_of_full cache set _ full
  have length : (residentLines cache set).length = p.assoc 0 := by
    rw [lines, List.length_map, of.sound.slots, of.ways]
  have keeps (old : Nat) (held : old ∈ residentLines cache set) : old % cache.numSets = set ∧ Resident cache old := by
    obtain ⟨entry, member, valid, stored⟩ := (mem_lines_of cache set _ old).mp held
    obtain ⟨i, inside, found⟩ := List.getElem_of_mem member
    have keeps : Keeps cache set i old := ⟨entry, by rw [List.getElem?_eq_getElem inside, found], valid, stored⟩
    have home := keeps_set cache i set old below keeps
    exact ⟨home, i, by rw [home]; exact keeps⟩
  have extra : (line :: residentLines cache set).Nodup :=
    List.nodup_cons.mpr ⟨fun held => absent (keeps line held).2, of.sound.distinct set⟩
  have inSet : (line :: residentLines cache set).toFinset ⊆ seenIn p traces n set := by
    intro old member
    rw [List.mem_toFinset, List.mem_cons] at member
    rw [seenIn, Finset.mem_filter, ← of.sets]
    rcases member with rfl | held
    · exact ⟨asked, here⟩
    · exact ⟨known old (keeps old held).2, (keeps old held).1⟩
  have bound := Finset.card_le_card inSet
  rw [List.toFinset_card_of_nodup extra, List.length_cons, length] at bound
  exact bound

variable (n : Nat) (room : ∀ set, (seenIn p traces n set).card ≤ p.assoc 0)

include accepted in
theorem l1_written (i : Nat) : ∃ timer slot hit,
    SlotWritten (tagOf (simulate p traces i).l1 (addrAt traces i)) (victimAt p.policy (simulate p traces i).l1 traces i)
      ((simulate p traces i).l1.sets (indexOf (simulate p traces i).l1 (addrAt traces i))) slot hit ∧
    (simulate p traces (i + 1)).l1 = written (simulate p traces i).l1 (addrAt traces i) timer slot hit := by
  have of := simulate_of_level p traces 0 accepted (l1_present p accepted) i
  obtain ⟨slot, hit, wrote, after⟩ := sound_access_slot p.policy (timerAt (simulate p traces i) 0) _ traces i of.sound
  refine ⟨(timerAt (simulate p traces i) 0 + 1) % 2 ^ 32, slot, hit, wrote, ?_⟩
  have reached := step_level p traces i (simulate p traces i) 0
  rw [show reaches p traces i (simulate p traces i) 0 = true from rfl, if_pos rfl, served, after] at reached
  exact reached

include accepted room in
theorem seen_resident (i : Nat) (below : i ≤ n) (line : Nat) (asked : line ∈ seen p traces i) :
    Resident (simulate p traces i).l1 line := by
  have present := l1_present p accepted
  induction i with
  | zero =>
      obtain ⟨j, none, _⟩ := (Paging.mem_requested _ 0 line).mp asked
      exact absurd none (Nat.not_lt_zero j)
  | succ i ih =>
      have of : OfLevel p 0 (simulate p traces i).l1 := simulate_of_level p traces 0 accepted present i
      have shaped := of.sound.shaped
      have here := line_of_level p 0 _ of (addrAt traces i)
      obtain ⟨timer, slot, hit, wrote, after⟩ := l1_written p traces accepted i
      have arrives := written_resident _ _ timer slot hit shaped (slot_inside slot hit _ _ wrote)
      rw [seen, Paging.requested_succ, Finset.mem_insert] at asked
      rw [after]
      rcases asked with rfl | earlier
      · rw [here] at arrives
        exact arrives
      · rw [resident_step _ _ timer slot hit of.sound wrote line]
        refine Or.inr ⟨ih (Nat.le_of_succ_le below) earlier, ?_⟩
        rintro ⟨set, j, replaced⟩
        obtain ⟨rfl, rfl, full⟩ := replaced_evicts _ _ timer slot hit shaped wrote set j line replaced
        have absent : ¬ Resident (simulate p traces i).l1 (lineAt p traces i) := by
          rw [lineAt, ← here, ← hit_resident _ _ slot false shaped wrote]
          exact Bool.false_ne_true
        have home : lineAt p traces i % (simulate p traces i).l1.numSets = indexOf (simulate p traces i).l1 (addrAt traces i) := by
          rw [lineAt, ← here, line_set _ _ shaped]
        have overflow := full_set_overflows p traces _ of n _ (lineAt p traces i) full (index_below _ _ shaped)
          (fun known resident => Paging.requested_mono _ i n (Nat.le_of_succ_le below)
            (resident_seen p traces accepted 0 present i known resident))
          home ((Paging.mem_requested _ n _).mpr ⟨i, below, rfl⟩) absent
        exact absurd (room _) (Nat.not_le.mpr overflow)

include accepted room in
theorem l1_misses_first (i : Nat) (below : i < n) : missesAt p traces i 0 = true ↔ lineAt p traces i ∉ seen p traces i := by
  have present := l1_present p accepted
  have held : holdsAt p traces i 0 = true ↔ lineAt p traces i ∈ seen p traces i := by
    rw [holds_at_iff p traces accepted 0 present i]
    exact ⟨resident_seen p traces accepted 0 present i _,
      seen_resident p traces accepted n room i (Nat.le_of_lt below) _⟩
  have always : missesAt p traces i 0 = !holdsAt p traces i 0 := Bool.true_and _
  rw [always, Bool.not_eq_true', ← Bool.not_eq_true, held]

theorem reached_below_l1 (i : Nat) (lvl : Fin 3) (lower : lvl ≠ 0) (reached : reachesAt p traces i lvl = true) :
    missesAt p traces i 0 = true := by
  have always : missesAt p traces i 0 = !holdsAt p traces i 0 := Bool.true_and _
  have missed (passed : passesOn p traces i (simulate p traces i) 0 = true) : missesAt p traces i 0 = true := by
    rw [passes_on_holds, Bool.and_eq_true] at passed
    rw [always]
    exact passed.1
  cases lvl using level_cases with
  | l1 => exact absurd rfl lower
  | l2 =>
      rw [reachesAt, reaches, Bool.and_eq_true] at reached
      exact missed reached.2
  | l3 =>
      rw [reachesAt, reaches, Bool.and_eq_true, Bool.and_eq_true] at reached
      exact missed reached.1.2

include accepted room in
theorem lower_level_no_hits (lvl : Fin 3) (present : p.present lvl) (lower : lvl ≠ 0) :
    ((simulate p traces n).level lvl).hits = 0 := by
  have same : Nat.count (fun i => reachesAt p traces i lvl = true) n = Nat.count (fun i => missesAt p traces i lvl = true) n := by
    apply le_antisymm
    · refine Nat.count_mono_left fun i below reached => ?_
      have first := (l1_misses_first p traces accepted n room i below).mp (reached_below_l1 p traces i lvl lower reached)
      have absent : holdsAt p traces i lvl = false := by
        rw [Bool.eq_false_iff]
        intro held
        exact first (resident_seen p traces accepted lvl present i _ ((holds_at_iff p traces accepted lvl present i).mp held))
      rw [missesAt, reached, absent]
      rfl
    · exact Nat.count_mono_left fun i _ missed => (Bool.and_eq_true _ _ ▸ missed).1
  obtain ⟨total, misses⟩ := level_counters p traces n lvl
  omega

include accepted room in
theorem level_misses_seen (short : n < 2 ^ 32) (lvl : Fin 3) (present : p.present lvl) :
    ((simulate p traces n).level lvl).misses = (seen p traces n).card := by
  have first : (simulate p traces n).l1.misses = (seen p traces n).card := by
    rw [seen, ← Paging.count_first_requests, show (simulate p traces n).l1 = (simulate p traces n).level 0 from rfl,
      (level_counters p traces n 0).2]
    apply le_antisymm
    · exact Nat.count_mono_left fun i below => (l1_misses_first p traces accepted n room i below).mp
    · exact Nat.count_mono_left fun i below => (l1_misses_first p traces accepted n room i below).mpr
  have accounted := accounted_of_kept p traces accepted n (none_lost_short p traces n short)
  have second (two : 1 < p.numLvls) : (simulate p traces n).l2.misses = (seen p traces n).card := by
    have arrived := accounted.l2 two
    have none := lower_level_no_hits p traces accepted n room 1 two (by decide)
    rwa [show (simulate p traces n).l2.hits = 0 from none, Nat.zero_add, first] at arrived
  cases lvl using level_cases with
  | l1 => exact first
  | l2 => exact second present
  | l3 =>
      have arrived := accounted.l3 present
      have none := lower_level_no_hits p traces accepted n room 2 present (by decide)
      rwa [show (simulate p traces n).l3.hits = 0 from none, Nat.zero_add,
        second (Nat.lt_of_succ_lt present)] at arrived

end Iterations

def distinctLines (p : Parameters) (traces : List MemAccess) : Finset Nat :=
  (traces.map fun access => memoryLine p access.addr).toFinset

def receives (p : Parameters) (traces : List MemAccess) (set : Nat) : Finset Nat :=
  distinctLines p (traces.filter fun access => indexOf (cacheInit p 0).1 access.addr == set)

theorem mem_distinct_lines (p : Parameters) (traces : List MemAccess) (line : Nat) :
    line ∈ distinctLines p traces ↔ ∃ access ∈ traces, memoryLine p access.addr = line := by
  rw [distinctLines, List.mem_toFinset, List.mem_map]

theorem address_in_trace (traces : List MemAccess) (i : Nat) (access : MemAccess) (found : traces[i]? = some access) :
    addrAt traces i = access.addr := by
  rw [addrAt, found]
  rfl

theorem seen_whole (p : Parameters) (traces : List MemAccess) : seen p traces traces.length = distinctLines p traces := by
  ext line
  rw [seen, Paging.mem_requested, mem_distinct_lines]
  constructor
  · rintro ⟨i, below, rfl⟩
    refine ⟨traces[i], List.getElem_mem below, ?_⟩
    rw [lineAt, address_in_trace traces i _ (List.getElem?_eq_getElem below)]
  · rintro ⟨access, member, rfl⟩
    obtain ⟨i, below, found⟩ := List.getElem_of_mem member
    refine ⟨i, below, ?_⟩
    rw [lineAt, address_in_trace traces i access (by rw [List.getElem?_eq_getElem below, found])]

theorem seen_in_received (p : Parameters) (traces : List MemAccess) (accepted : Accepted p) (set : Nat) :
    seenIn p traces traces.length set = receives p traces set := by
  have of := init_of_level p 0 accepted (l1_present p accepted)
  have index (address : U64) : indexOf (cacheInit p 0).1 address = memoryLine p address % setCount p 0 := by
    rw [index_of_line _ _ of.sound.shaped, line_of_level p 0 _ of, of.sets]
  ext line
  rw [seenIn, Finset.mem_filter, seen_whole, receives, mem_distinct_lines, mem_distinct_lines]
  constructor
  · rintro ⟨⟨access, member, rfl⟩, here⟩
    exact ⟨access, List.mem_filter.mpr ⟨member, by rw [index, here, beq_self_eq_true]⟩, rfl⟩
  · rintro ⟨access, member, rfl⟩
    rw [List.mem_filter, beq_iff_eq, index] at member
    exact ⟨⟨access, member.1, rfl⟩, member.2⟩

-- A line is in no level before its first access, and a set that is never full
-- loses none.
theorem compulsory_misses (p : Parameters) (traces : List MemAccess) (accepted : Accepted p) (short : traces.length < 2 ^ 32) :
    (distinctLines p traces).card ≤ ramVisits p (simulate p traces traces.length) ∧
      ((∀ set, (receives p traces set).card ≤ p.assoc 0) →
        ∀ lvl, p.present lvl →
          ((simulate p traces traces.length).level lvl).misses = (distinctLines p traces).card ∧
            (lvl ≠ 0 → ((simulate p traces traces.length).level lvl).hits = 0)) := by
  rw [← seen_whole]
  refine ⟨seen_le_ram_visits p traces accepted traces.length short, fun fits lvl present => ?_⟩
  have room (set : Nat) : (seenIn p traces traces.length set).card ≤ p.assoc 0 := by
    rw [seen_in_received p traces accepted set]
    exact fits set
  exact ⟨level_misses_seen p traces accepted traces.length room short lvl present,
    lower_level_no_hits p traces accepted traces.length room lvl present⟩

def alternatingReads : List MemAccess := [⟨0, 0⟩, ⟨16, 0⟩, ⟨4, 0⟩, ⟨20, 0⟩]

theorem compulsory_misses_two_lines :
    2 ≤ ramVisits directMapped (simulate directMapped alternatingReads 4) ∧
      (simulate directMapped alternatingReads 4).l1.misses = 2 ∧ (simulate directMapped alternatingReads 4).l2.misses = 2 ∧
      (simulate directMapped alternatingReads 4).l2.hits = 0 := by
  have short : alternatingReads.length < 2 ^ 32 := by decide
  have room : ∀ set, (receives directMapped alternatingReads set).card ≤ directMapped.assoc 0 := by
    intro set
    rcases set with _ | _ | set
    · decide
    · decide
    · exact Nat.zero_le 1
  obtain ⟨ram, levels⟩ := compulsory_misses directMapped alternatingReads direct_mapped_accepted short
  have first := levels room 0 (by decide)
  have second := levels room 1 (by decide)
  exact ⟨ram, first.1, second.1, second.2 (by decide)⟩

end CpuEmulator.Cache
