import CpuEmulator.Cache.Slots
import CpuEmulator.Library.Events

set_option autoImplicit false

namespace CpuEmulator.Cache

open Library

structure Access where
  globalTimer : Nat
  currentIdx : Nat

def levelAfter (p : Parameters) (lvl : Fin 3) (traces : List MemAccess) (calls : Nat → Access) : Nat → CacheLevel
  | 0 => (cacheInit p lvl).1
  | n + 1 => (cacheAccess p.policy (calls n).globalTimer (levelAfter p lvl traces calls n) traces (calls n).currentIdx).2

def memoryLine (p : Parameters) (address : U64) : Nat := address.toNat / p.lineSize

section Calls

variable (p : Parameters) (lvl : Fin 3) (traces : List MemAccess) (calls : Nat → Access)

def addressOf (n : Nat) : U64 := addrAt traces (calls n).currentIdx

def BroughtIn (line n : Nat) : Prop :=
  (levelAfter p lvl traces calls (n + 1)).misses = (levelAfter p lvl traces calls n).misses + 1 ∧
    memoryLine p (addressOf traces calls n) = line

def ReplacedBy (line n : Nat) : Prop := Replaced (levelAfter p lvl traces calls n) (levelAfter p lvl traces calls (n + 1)) line

structure Represented (before after : CacheLevel) (n : Nat) : Prop where
  filled : ∀ set, ∃ count, FilledTo (before.sets set) count
  distinct : ∀ set, (before.sets set).Pairwise fun a b => a.valid = true → b.valid = true → a.tag ≠ b.tag
  entry : ∀ a b, indexOf before a = indexOf before b ∧ tagOf before a = tagOf before b ↔ memoryLine p a = memoryLine p b
  hit : after.hits = before.hits + 1 ↔
    ∃ j, j < n ∧ BroughtIn p lvl traces calls (memoryLine p (addressOf traces calls n)) j ∧
      ∀ k, j < k → k < n → ¬ ReplacedBy p lvl traces calls (memoryLine p (addressOf traces calls n)) k
  counted : after.hits = before.hits + 1 ∧ after.misses = before.misses ∨
    after.hits = before.hits ∧ after.misses = before.misses + 1
  resident : Resident after (memoryLine p (addressOf traces calls n))
  elsewhere : ∀ set, set ≠ indexOf before (addressOf traces calls n) → after.sets set = before.sets set
  single : ∀ set i j first second, SlotReplaced before after set i first → SlotReplaced before after set j second →
    i = j ∧ first = second
  full : ∀ set i line, SlotReplaced before after set i line → (before.sets set).length = p.assoc lvl ∧
    ∀ entry ∈ before.sets set, entry.valid = true

variable (accepted : Accepted p) (present : p.present lvl)

include accepted present in
theorem level_after_of (n : Nat) : OfLevel p lvl (levelAfter p lvl traces calls n) := by
  induction n with
  | zero => exact init_of_level p lvl accepted present
  | succ n ih => exact access_of_level p lvl p.policy _ _ traces _ ih

include accepted present in
theorem level_after_written (n : Nat) : ∃ i hit,
    SlotWritten (tagOf (levelAfter p lvl traces calls n) (addressOf traces calls n))
      (victimAt p.policy (levelAfter p lvl traces calls n) traces (calls n).currentIdx)
      ((levelAfter p lvl traces calls n).sets (indexOf (levelAfter p lvl traces calls n) (addressOf traces calls n))) i hit ∧
    levelAfter p lvl traces calls (n + 1) = written (levelAfter p lvl traces calls n) (addressOf traces calls n)
      (((calls n).globalTimer + 1) % 2 ^ 32) i hit :=
  sound_access_slot p.policy _ _ traces _ (level_after_of p lvl traces calls accepted present n).sound

include accepted present in
theorem level_after_filled (n set : Nat) : ∃ count, FilledTo ((levelAfter p lvl traces calls n).sets set) count := by
  induction n with
  | zero =>
      obtain ⟨_, _, fresh⟩ := init_shaped p lvl accepted present
      refine ⟨0, fun i entry found => ?_⟩
      rw [levelAfter, fresh] at found
      obtain rfl := List.eq_of_mem_replicate (List.mem_of_getElem? found)
      exact iff_of_false Bool.false_ne_true (Nat.not_lt_zero i)
  | succ n ih =>
      obtain ⟨count, filled⟩ := ih
      obtain ⟨i, hit, slot, after⟩ := level_after_written p lvl traces calls accepted present n
      rw [after]
      simp only [written, withSet]
      by_cases here : set = indexOf (levelAfter p lvl traces calls n) (addressOf traces calls n)
      · subst here
        rw [Function.update_self]
        exact filled_written _ _ _ i hit count slot filled
      · rw [Function.update_of_ne here]
        exact ⟨count, filled⟩

theorem level_after_congr (other : Nat → Access) (n : Nat) (same : ∀ k, k < n → calls k = other k) :
    levelAfter p lvl traces calls n = levelAfter p lvl traces other n := by
  induction n with
  | zero => rfl
  | succ n ih =>
      rw [levelAfter, levelAfter, same n (Nat.lt_succ_self n), ih fun k below => same k (Nat.lt_succ_of_lt below)]

include accepted present in
theorem simulate_level_after (n : Nat) : ∃ calls m,
    (simulate p traces n).level lvl = levelAfter p lvl traces calls m ∧ ∀ k, k < m → (calls k).currentIdx < n := by
  refine (level_induction p traces lvl accepted present
    (fun n cache => ∃ calls m, cache = levelAfter p lvl traces calls m ∧ ∀ k, k < m → (calls k).currentIdx < n) ?_ ?_ ?_ n).2
  · exact ⟨fun _ => ⟨0, 0⟩, 0, rfl, fun k none => absurd none (Nat.not_lt_zero k)⟩
  · rintro n _ ⟨calls, m, level, earlier⟩ _
    have unchanged (k : Nat) (below : k < m) :
        calls k = Function.update calls m ⟨timerAt (simulate p traces n) lvl, n⟩ k :=
      (Function.update_of_ne (Nat.ne_of_lt below) _ _).symm
    refine ⟨Function.update calls m ⟨timerAt (simulate p traces n) lvl, n⟩, m + 1, ?_, fun k below => ?_⟩
    · rw [levelAfter, Function.update_self, ← level_after_congr p lvl traces calls _ m unchanged, ← level, served]
    · rcases Nat.lt_or_eq_of_le (Nat.le_of_lt_succ below) with before | rfl
      · rw [← unchanged k before]
        exact Nat.lt_succ_of_lt (earlier k before)
      · rw [Function.update_self]
        exact Nat.lt_succ_self n
  · rintro n ⟨calls, m, level, earlier⟩ _
    exact ⟨calls, m, level, fun k below => Nat.lt_succ_of_lt (earlier k below)⟩

theorem line_of_level (cache : CacheLevel) (of : OfLevel p lvl cache) (address : U64) :
    lineOf cache address = memoryLine p address := by
  rw [lineOf, of.lineSize, memoryLine]

include accepted present in
theorem resident_since (n line : Nat) : Resident (levelAfter p lvl traces calls n) line ↔
    ∃ j, j < n ∧ BroughtIn p lvl traces calls line j ∧ ∀ k, j < k → k < n → ¬ ReplacedBy p lvl traces calls line k := by
  apply established_since (fun n => Resident (levelAfter p lvl traces calls n) line)
  · rintro ⟨i, entry, found, valid, _⟩
    obtain ⟨_, _, fresh⟩ := init_shaped p lvl accepted present
    rw [levelAfter, fresh] at found
    obtain rfl := List.eq_of_mem_replicate (List.mem_of_getElem? found)
    cases valid
  · intro n
    have of := level_after_of p lvl traces calls accepted present n
    obtain ⟨i, hit, slot, after⟩ := level_after_written p lvl traces calls accepted present n
    have step := resident_step _ _ (((calls n).globalTimer + 1) % 2 ^ 32) i hit of.sound slot line
    rw [ReplacedBy, BroughtIn, after, step, line_of_level p lvl _ of]
    cases hit <;> simp [written, withSet]

-- Whatever the calls are, the level is like this before and after each.
include accepted present in
theorem level_represented (n : Nat) :
    Represented p lvl traces calls (levelAfter p lvl traces calls n) (levelAfter p lvl traces calls (n + 1)) n := by
  have of := level_after_of p lvl traces calls accepted present n
  have shaped := of.sound.shaped
  have line := line_of_level p lvl _ of
  obtain ⟨i, hit, slot, after⟩ := level_after_written p lvl traces calls accepted present n
  have inside := slot_inside i hit _ _ slot
  have found := hit_resident _ _ i hit shaped slot
  have since := resident_since p lvl traces calls accepted present n (memoryLine p (addressOf traces calls n))
  have replacedHere := replaced_slot _ (addressOf traces calls n) (((calls n).globalTimer + 1) % 2 ^ 32) i hit shaped inside
  rw [after]
  exact {
    filled := level_after_filled p lvl traces calls accepted present n
    distinct := distinct_tags _ of.sound
    entry := by
      intro a b
      rw [same_entry_iff _ shaped, line a, line b]
    hit := by
      rw [← since, ← line, ← found]
      cases hit <;> simp [written, withSet]
    counted := by
      cases hit with
      | true => exact Or.inl ⟨rfl, rfl⟩
      | false => exact Or.inr ⟨rfl, rfl⟩
    resident := by
      rw [← line]
      exact written_resident _ _ _ i hit shaped inside
    elsewhere := fun set other => Function.update_of_ne other _ _
    single := by
      intro set j k first second one two
      obtain ⟨_, rfl⟩ := replacedHere set j first one
      obtain ⟨_, rfl⟩ := replacedHere set k second two
      obtain ⟨entry, here, _, rfl⟩ := one.1
      obtain ⟨again, there, _, rfl⟩ := two.1
      rw [Option.some.inj (here.symm.trans there)]
      exact ⟨rfl, rfl⟩
    full := by
      intro set j old replaced
      refine ⟨?_, (replaced_evicts _ _ _ i hit shaped slot set j old replaced).2.2⟩
      rw [of.sound.slots, of.ways] }

end Calls

def conflictingReads : List MemAccess := [⟨0, 0⟩, ⟨32, 0⟩, ⟨0, 0⟩]

def inOrder (n : Nat) : Access := ⟨n, n⟩

theorem level_represented_conflict :
    ¬ ((levelAfter ⟨1, 16, fun _ => 1, fun _ => 32, .lru⟩ 0 conflictingReads inOrder 3).hits =
        (levelAfter ⟨1, 16, fun _ => 1, fun _ => 32, .lru⟩ 0 conflictingReads inOrder 2).hits + 1) ∧
      ¬ ∃ j, j < 2 ∧ BroughtIn ⟨1, 16, fun _ => 1, fun _ => 32, .lru⟩ 0 conflictingReads inOrder 0 j ∧
        ∀ k, j < k → k < 2 → ¬ ReplacedBy ⟨1, 16, fun _ => 1, fun _ => 32, .lru⟩ 0 conflictingReads inOrder 0 k := by
  have miss : ¬ ((levelAfter ⟨1, 16, fun _ => 1, fun _ => 32, .lru⟩ 0 conflictingReads inOrder 3).hits =
      (levelAfter ⟨1, 16, fun _ => 1, fun _ => 32, .lru⟩ 0 conflictingReads inOrder 2).hits + 1) := by decide
  have represented := level_represented ⟨1, 16, fun _ => 1, fun _ => 32, .lru⟩ 0 conflictingReads inOrder
    ⟨by decide, by decide, by decide, by decide⟩ (by decide) 2
  exact ⟨miss, fun brought => miss (represented.hit.mpr brought)⟩

end CpuEmulator.Cache
