import CpuEmulator.Cache.Hierarchy
import Mathlib.Data.Nat.Count

set_option autoImplicit false

namespace CpuEmulator.Cache

def holdsLine (cache : CacheLevel) (address : U64) : Bool :=
  (hitSlot (cache.sets (indexOf cache address)) (tagOf cache address)).isSome

theorem access_counters (policy : ReplacementPolicy) (globalTimer : Nat) (cache : CacheLevel) (traces : List MemAccess)
    (currentIdx : Nat) :
    (cacheAccess policy globalTimer cache traces currentIdx).2.hits =
        cache.hits + (holdsLine cache (addrAt traces currentIdx)).toNat ∧
      (cacheAccess policy globalTimer cache traces currentIdx).2.misses =
        cache.misses + (!holdsLine cache (addrAt traces currentIdx)).toNat := by
  simp only [cacheAccess, holdsLine]
  split
  · rename_i slot
    rw [slot]
    exact ⟨rfl, rfl⟩
  · rename_i slot
    rw [slot]
    split <;> exact ⟨rfl, rfl⟩

def ramVisits (p : Parameters) (s : Simulation) : Nat :=
  if p.numLvls = 1 then s.l1.misses else if p.numLvls = 2 then s.l2.misses else s.l3.misses

section Iterations

variable (p : Parameters) (traces : List MemAccess)

def reachesAt (i : Nat) (lvl : Fin 3) : Bool := reaches p traces i (simulate p traces i) lvl

def holdsAt (i : Nat) (lvl : Fin 3) : Bool := holdsLine ((simulate p traces i).level lvl) (addrAt traces i)

def hitsAt (i : Nat) (lvl : Fin 3) : Nat := ((simulate p traces i).level lvl).hits

def missesAt (i : Nat) (lvl : Fin 3) : Bool := reachesAt p traces i lvl && !holdsAt p traces i lvl

def lostAt (i : Nat) (lvl : Fin 3) : Bool := missesAt p traces i lvl && decide (2 ^ 32 ≤ hitsAt p traces i lvl)

theorem passes_on_holds (i : Nat) (lvl : Fin 3) : passesOn p traces i (simulate p traces i) lvl =
    (!holdsAt p traces i lvl && decide (hitsAt p traces i lvl < 2 ^ 32)) := by
  have counted := (access_counters p.policy (timerAt (simulate p traces i) lvl) ((simulate p traces i).level lvl) traces i).1
  rw [passesOn, served, counted, holdsAt, hitsAt]
  generalize ((simulate p traces i).level lvl).hits = hits
  cases holdsLine ((simulate p traces i).level lvl) (addrAt traces i) with
  | true =>
      have larger : hits % 2 ^ 32 ≤ hits := Nat.mod_le hits (2 ^ 32)
      rw [Bool.not_true, Bool.false_and, beq_eq_false_iff_ne, Bool.toNat_true]
      omega
  | false =>
      rw [Bool.not_false, Bool.true_and, Bool.toNat_false, Nat.add_zero, Bool.eq_iff_iff, beq_iff_eq, decide_eq_true_iff]
      omega

theorem level_counters (n : Nat) (lvl : Fin 3) :
    ((simulate p traces n).level lvl).hits + ((simulate p traces n).level lvl).misses =
        Nat.count (fun i => reachesAt p traces i lvl = true) n ∧
      ((simulate p traces n).level lvl).misses = Nat.count (fun i => missesAt p traces i lvl = true) n := by
  induction n with
  | zero =>
      have zeroed (cache : CacheLevel) (fresh : cache = (cacheInit p lvl).1 ∨ cache = unusedLevel) :
          cache.hits = 0 ∧ cache.misses = 0 := by
        rcases fresh with rfl | rfl
        · simp only [cacheInit]
          split <;> exact ⟨rfl, rfl⟩
        · exact ⟨rfl, rfl⟩
      have fresh : (simulationStart p).level lvl = (cacheInit p lvl).1 ∨ (simulationStart p).level lvl = unusedLevel := by
        cases lvl using level_cases with
        | l1 => exact Or.inl rfl
        | l2 | l3 => exact ite_eq_or_eq _ _ _
      obtain ⟨hits, misses⟩ := zeroed _ fresh
      rw [simulate, hits, misses, Nat.count_zero, Nat.count_zero]
      exact ⟨rfl, rfl⟩
  | succ n ih =>
      obtain ⟨total, misses⟩ := ih
      rw [simulate, step_level, Nat.count_succ, Nat.count_succ, ← total, ← misses, missesAt]
      cases here : reachesAt p traces n lvl with
      | false =>
          rw [reachesAt] at here
          rw [here]
          exact ⟨rfl, rfl⟩
      | true =>
          obtain ⟨hit, missed⟩ := access_counters p.policy (timerAt (simulate p traces n) lvl)
            ((simulate p traces n).level lvl) traces n
          rw [reachesAt] at here
          rw [here, if_pos rfl, served, hit, missed, ← holdsAt]
          cases holdsAt p traces n lvl with
          | true => exact ⟨Nat.add_right_comm _ _ _, rfl⟩
          | false => exact ⟨rfl, rfl⟩

theorem count_split (whole part rest : Nat → Bool) (split : ∀ i, whole i = (part i || rest i))
    (apart : ∀ i, (part i && rest i) = false) (n : Nat) :
    Nat.count (fun i => whole i = true) n = Nat.count (fun i => part i = true) n + Nat.count (fun i => rest i = true) n := by
  induction n with
  | zero => rfl
  | succ n ih =>
      have here := apart n
      have last : (if (part n || rest n) = true then 1 else 0) =
          (if part n = true then 1 else 0) + (if rest n = true then 1 else 0) := by
        cases first : part n with
        | false => rw [Bool.false_or, if_neg Bool.false_ne_true, Nat.zero_add]
        | true =>
            rw [first, Bool.true_and] at here
            rw [here]
            rfl
      rw [Nat.count_succ, Nat.count_succ, Nat.count_succ, ih, split, last]
      omega

theorem misses_arrive_or_lost (upper lower : Fin 3)
    (passed : ∀ i, reachesAt p traces i lower = (reachesAt p traces i upper && passesOn p traces i (simulate p traces i) upper))
    (n : Nat) :
    ((simulate p traces n).level upper).misses =
      ((simulate p traces n).level lower).hits + ((simulate p traces n).level lower).misses +
        Nat.count (fun i => lostAt p traces i upper = true) n := by
  rw [(level_counters p traces n upper).2, (level_counters p traces n lower).1]
  apply count_split
  · intro i
    rw [passed, passes_on_holds, lostAt, missesAt]
    by_cases small : hitsAt p traces i upper < 2 ^ 32
    · rw [decide_eq_true small, decide_eq_false (Nat.not_le.mpr small), Bool.and_true, Bool.and_false, Bool.or_false]
    · rw [decide_eq_false small, decide_eq_true (Nat.not_lt.mp small), Bool.and_true, Bool.and_false, Bool.and_false,
        Bool.false_or]
  · intro i
    rw [passed, passes_on_holds, lostAt]
    by_cases small : hitsAt p traces i upper < 2 ^ 32
    · rw [decide_eq_false (Nat.not_le.mpr small), Bool.and_false, Bool.and_false]
    · rw [decide_eq_false small, Bool.and_false, Bool.and_false, Bool.false_and]

theorem l1_passes_on (two : 1 < p.numLvls) (i : Nat) :
    reachesAt p traces i 1 = (reachesAt p traces i 0 && passesOn p traces i (simulate p traces i) 0) := by
  rw [reachesAt, reaches, decide_eq_true two, Bool.true_and]
  rfl

theorem l2_passes_on (three : 2 < p.numLvls) (i : Nat) :
    reachesAt p traces i 2 = (reachesAt p traces i 1 && passesOn p traces i (simulate p traces i) 1) := by
  have test : reachesAt p traces i 2 = (reachesAt p traces i 1 &&
      (decide (2 < p.numLvls) && passesOn p traces i (simulate p traces i) 1)) := rfl
  rw [test, decide_eq_true three, Bool.true_and]

def missesEverywhere (i : Nat) : Bool := decide (∀ lvl, p.present lvl → holdsAt p traces i lvl = false)

def NoneLost (n : Nat) : Prop := ∀ i, i < n → ∀ lvl : Fin 3, lvl.val + 1 < p.numLvls → lostAt p traces i lvl = false

structure Accounted (n : Nat) : Prop where
  l1 : (simulate p traces n).l1.hits + (simulate p traces n).l1.misses = n
  l2 : 1 < p.numLvls → (simulate p traces n).l2.hits + (simulate p traces n).l2.misses = (simulate p traces n).l1.misses
  l3 : 2 < p.numLvls → (simulate p traces n).l3.hits + (simulate p traces n).l3.misses = (simulate p traces n).l2.misses
  ram : ramVisits p (simulate p traces n) = Nat.count (fun i => missesEverywhere p traces i = true) n

theorem arrives_unless_lost (upper lower : Fin 3)
    (passed : ∀ i, reachesAt p traces i lower = (reachesAt p traces i upper && passesOn p traces i (simulate p traces i) upper))
    (i : Nat) (kept : lostAt p traces i upper = false) : reachesAt p traces i lower = missesAt p traces i upper := by
  rw [passed, passes_on_holds, missesAt]
  by_cases small : hitsAt p traces i upper < 2 ^ 32
  · rw [decide_eq_true small, Bool.and_true]
  · rw [lostAt, decide_eq_true (Nat.not_lt.mp small), Bool.and_true, missesAt] at kept
    rw [decide_eq_false small, Bool.and_false, Bool.and_false, kept]

theorem all_levels (condition : Fin 3 → Prop) : (∀ lvl, condition lvl) ↔ condition 0 ∧ condition 1 ∧ condition 2 := by
  constructor
  · intro all
    exact ⟨all 0, all 1, all 2⟩
  · rintro ⟨l1, l2, l3⟩ lvl
    cases lvl using level_cases with
    | l1 => exact l1
    | l2 => exact l2
    | l3 => exact l3

theorem ram_visits_misses (n : Nat) (last : Fin 3) (deepest : p.numLvls = last.val + 1) :
    ramVisits p (simulate p traces n) = ((simulate p traces n).level last).misses := by
  rw [ramVisits, deepest]
  cases last using level_cases with
  | l1 | l2 | l3 => rfl

theorem misses_everywhere_last (i : Nat) (last : Fin 3) (deepest : p.numLvls = last.val + 1)
    (kept : ∀ lvl : Fin 3, lvl.val + 1 < p.numLvls → lostAt p traces i lvl = false) :
    missesEverywhere p traces i = missesAt p traces i last := by
  have first : missesAt p traces i 0 = !holdsAt p traces i 0 := Bool.true_and _
  have second (two : 1 < p.numLvls) : missesAt p traces i 1 = (!holdsAt p traces i 0 && !holdsAt p traces i 1) := by
    rw [missesAt, arrives_unless_lost p traces 0 1 (l1_passes_on p traces two) i (kept 0 two), first]
  have third (three : 2 < p.numLvls) :
      missesAt p traces i 2 = ((!holdsAt p traces i 0 && !holdsAt p traces i 1) && !holdsAt p traces i 2) := by
    rw [missesAt, arrives_unless_lost p traces 1 2 (l2_passes_on p traces three) i (kept 1 three), second (by omega)]
  rw [missesEverywhere, Bool.eq_iff_iff, decide_eq_true_iff, all_levels]
  simp only [Parameters.present, deepest]
  cases last using level_cases with
  | l1 => simp [first]
  | l2 => simp [second (by rw [deepest]; decide)]
  | l3 => simp [third (by rw [deepest]; decide), and_assoc]

theorem accounted_of_kept (accepted : Accepted p) (n : Nat) (kept : NoneLost p traces n) : Accounted p traces n := by
  have second (two : 1 < p.numLvls) := misses_arrive_or_lost p traces 0 1 (l1_passes_on p traces two) n
  have third (three : 2 < p.numLvls) := misses_arrive_or_lost p traces 1 2 (l2_passes_on p traces three) n
  have never (lvl : Fin 3) (above : lvl.val + 1 < p.numLvls) :
      Nat.count (fun i => lostAt p traces i lvl = true) n = 0 :=
    Nat.count_iff_forall_not.mpr fun i below => Bool.eq_false_iff.mp (kept i below lvl above)
  refine ⟨?_, fun two => ?_, fun three => ?_, ?_⟩
  · have all : Nat.count (fun i => reachesAt p traces i 0 = true) n = n := Nat.count_iff_forall.mpr fun _ _ => rfl
    rw [← (level_counters p traces n 0).1] at all
    exact all
  · have arrived := second two
    rw [never 0 two] at arrived
    exact arrived.symm
  · have arrived := third three
    rw [never 1 three] at arrived
    exact arrived.symm
  · obtain ⟨last, deepest⟩ := last_level p accepted
    rw [ram_visits_misses p traces n last deepest, (level_counters p traces n last).2]
    have same (i : Nat) (below : i < n) := misses_everywhere_last p traces i last deepest (kept i below)
    apply le_antisymm
    · exact Nat.count_mono_left fun i below missed => by rw [same i below]; exact missed
    · exact Nat.count_mono_left fun i below missed => by rw [← same i below]; exact missed

theorem accounted_iff (accepted : Accepted p) (n : Nat) : Accounted p traces n ↔ NoneLost p traces n := by
  have second (two : 1 < p.numLvls) := misses_arrive_or_lost p traces 0 1 (l1_passes_on p traces two) n
  have third (three : 2 < p.numLvls) := misses_arrive_or_lost p traces 1 2 (l2_passes_on p traces three) n
  refine ⟨fun accounted i below lvl above => ?_, accounted_of_kept p traces accepted n⟩
  have never : Nat.count (fun i => lostAt p traces i lvl = true) n = 0 := by
    cases lvl using level_cases with
    | l1 =>
        have arrived := second above
        rw [show (simulate p traces n).level 1 = (simulate p traces n).l2 from rfl, accounted.l2 above] at arrived
        exact Nat.left_eq_add.mp arrived
    | l2 =>
        have arrived := third above
        rw [show (simulate p traces n).level 2 = (simulate p traces n).l3 from rfl, accounted.l3 above] at arrived
        exact Nat.left_eq_add.mp arrived
    | l3 => exact absurd above (Nat.not_lt.mpr (accepted_levels p accepted).2)
  exact Bool.eq_false_iff.mpr (Nat.count_iff_forall_not.mp never i below)

end Iterations

def directMapped : Parameters := ⟨2, 16, fun _ => 1, fun _ => 32, .lru⟩

theorem direct_mapped_accepted : Accepted directMapped := ⟨by decide, by decide, by decide, by decide⟩

theorem accounted_iff_two_reads :
    Accounted directMapped [⟨0, 0⟩, ⟨16, 0⟩] 2 ↔ NoneLost directMapped [⟨0, 0⟩, ⟨16, 0⟩] 2 :=
  accounted_iff directMapped [⟨0, 0⟩, ⟨16, 0⟩] direct_mapped_accepted 2

def repeatedReads (repeats : Nat) : List MemAccess := List.replicate repeats ⟨0, 0⟩ ++ [⟨16, 0⟩]

theorem repeated_address (repeats i : Nat) (below : i < repeats) : addrAt (repeatedReads repeats) i = 0 := by
  rw [addrAt, repeatedReads, List.getElem?_append_left (by rw [List.length_replicate]; exact below),
    List.getElem?_replicate_of_lt below]
  rfl

theorem last_address (repeats : Nat) : addrAt (repeatedReads repeats) repeats = 16 := by
  rw [addrAt, repeatedReads, List.getElem?_append_right (by rw [List.length_replicate]), List.length_replicate, Nat.sub_self]
  rfl

structure OnlyLineZero (cache : CacheLevel) (hits : Nat) : Prop where
  line : cache.lineSize = 16
  sets : cache.numSets = 2
  zero : ∃ used, cache.sets 0 = [⟨0, true, used⟩]
  one : cache.sets 1 = [⟨0, false, 0⟩]
  hits : cache.hits = hits

theorem direct_mapped_index (cache : CacheLevel) (line : cache.lineSize = 16) (sets : cache.numSets = 2) :
    indexOf cache 0 = 0 ∧ tagOf cache 0 = 0 ∧ indexOf cache 16 = 1 := by
  rw [indexOf, indexOf, tagOf, tagShift, line, sets]
  decide

theorem zero_access_hits (globalTimer hits i : Nat) (cache : CacheLevel) (traces : List MemAccess)
    (only : OnlyLineZero cache hits) (address : addrAt traces i = 0) :
    OnlyLineZero (cacheAccess .lru globalTimer cache traces i).2 (hits + 1) := by
  obtain ⟨line, sets, ⟨used, zero⟩, one, counted⟩ := only
  obtain ⟨index, tag, _⟩ := direct_mapped_index cache line sets
  have found : hitSlot (cache.sets 0) 0 = some 0 := by rw [zero]; rfl
  simp only [cacheAccess, address, index, tag, found]
  refine ⟨line, sets, ⟨(globalTimer + 1) % 2 ^ 32, ?_⟩, ?_, congrArg (· + 1) counted⟩
  · simp only [Function.update_self, zero]
    rfl
  · simp only [Function.update_of_ne Nat.one_ne_zero, one]

theorem zero_access_fills (globalTimer i : Nat) (traces : List MemAccess) (address : addrAt traces i = 0) :
    OnlyLineZero (cacheAccess .lru globalTimer (cacheInit directMapped 0).1 traces i).2 0 := by
  simp only [cacheAccess, address]
  exact ⟨rfl, rfl, ⟨(globalTimer + 1) % 2 ^ 32, rfl⟩, rfl, rfl⟩

theorem repeated_hits (repeats n : Nat) (below : n < repeats) :
    OnlyLineZero ((simulate directMapped (repeatedReads repeats) (n + 1)).level 0) n := by
  induction n with
  | zero =>
      rw [simulate, step_level]
      exact zero_access_fills _ 0 _ (repeated_address repeats 0 below)
  | succ n ih =>
      rw [simulate, step_level]
      exact zero_access_hits _ n (n + 1) _ _ (ih (by omega)) (repeated_address repeats (n + 1) below)

theorem repeated_reads_lose (hits : Nat) (wide : 2 ^ 32 ≤ hits) :
    (simulate directMapped (repeatedReads (hits + 1)) (hits + 2)).l2.hits +
        (simulate directMapped (repeatedReads (hits + 1)) (hits + 2)).l2.misses ≠
      (simulate directMapped (repeatedReads (hits + 1)) (hits + 2)).l1.misses := by
  have only := repeated_hits (hits + 1) hits (Nat.lt_succ_self hits)
  have absent : holdsAt directMapped (repeatedReads (hits + 1)) (hits + 1) 0 = false := by
    rw [holdsAt, last_address, holdsLine, (direct_mapped_index _ only.line only.sets).2.2, only.one]
    rfl
  have lost : lostAt directMapped (repeatedReads (hits + 1)) (hits + 1) 0 = true := by
    rw [lostAt, missesAt, absent, hitsAt, only.hits, decide_eq_true wide]
    rfl
  have some : Nat.count (fun i => lostAt directMapped (repeatedReads (hits + 1)) i 0 = true) (hits + 2) ≠ 0 :=
    Nat.count_ne_iff_exists.mpr ⟨hits + 1, Nat.lt_succ_self _, lost⟩
  have arrived := misses_arrive_or_lost directMapped (repeatedReads (hits + 1)) 0 1
    (l1_passes_on directMapped _ (by decide)) (hits + 2)
  intro same
  change (simulate directMapped (repeatedReads (hits + 1)) (hits + 2)).l1.misses =
    (simulate directMapped (repeatedReads (hits + 1)) (hits + 2)).l2.hits +
      (simulate directMapped (repeatedReads (hits + 1)) (hits + 2)).l2.misses + _ at arrived
  rw [same] at arrived
  exact some (Nat.left_eq_add.mp arrived)

theorem wide_hit_counter_loses_miss :
    (repeatedReads (2 ^ 32 + 1)).length = 2 ^ 32 + 2 ∧
      (simulate directMapped (repeatedReads (2 ^ 32 + 1)) (2 ^ 32 + 2)).l2.hits +
          (simulate directMapped (repeatedReads (2 ^ 32 + 1)) (2 ^ 32 + 2)).l2.misses ≠
        (simulate directMapped (repeatedReads (2 ^ 32 + 1)) (2 ^ 32 + 2)).l1.misses := by
  refine ⟨?_, repeated_reads_lose (2 ^ 32) (Nat.le_refl _)⟩
  rw [repeatedReads, List.length_append, List.length_replicate, List.length_singleton]

end CpuEmulator.Cache
