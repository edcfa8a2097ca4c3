import CpuEmulator.Cache.Geometry
import Mathlib.Data.List.Perm.Basic

set_option autoImplicit false

namespace CpuEmulator.Cache

section Slots

variable {α : Type}

theorem slot_perm (slots : List α) (i : Nat) (line : α) (found : slots[i]? = some line) :
    slots.Perm (line :: slots.eraseIdx i) := by
  obtain ⟨inside, rfl⟩ := List.getElem?_eq_some_iff.mp found
  exact (List.getElem_cons_eraseIdx_perm inside).symm

theorem set_perm (slots : List α) (i : Nat) (line new : α) (found : slots[i]? = some line) :
    (slots.set i new).Perm (new :: slots.eraseIdx i) := by
  obtain ⟨inside, rfl⟩ := List.getElem?_eq_some_iff.mp found
  rw [List.set_eq_take_append_cons_drop, if_pos inside, List.eraseIdx_eq_take_drop_succ]
  exact List.perm_middle

theorem modify_found (slots : List α) (i : Nat) (line : α) (f : α → α) (found : slots[i]? = some line) :
    slots.modify i f = slots.set i (f line) := by
  obtain ⟨inside, rfl⟩ := List.getElem?_eq_some_iff.mp found
  rw [List.modify_eq_take_cons_drop inside, List.set_eq_take_append_cons_drop, if_pos inside]

end Slots

-- What cache_access does to the set it looks at, up to the order of the slots:
-- line is the slot it writes and others are all the rest. victim is the slot
-- number that the policy would choose.
inductive SetServed (tag : U64) (timer victim : Nat) (lines : List CacheLine) : Bool → List CacheLine → Prop where
  | hit (line : CacheLine) (others after : List CacheLine) (found : lines.Perm (line :: others))
      (valid : line.valid = true) (same : line.tag = tag) (written : after.Perm ({ line with lastUsed := timer } :: others)) :
      SetServed tag timer victim lines true after
  | fill (line : CacheLine) (others after : List CacheLine) (absent : ∀ known ∈ lines, known.valid = true → known.tag ≠ tag)
      (found : lines.Perm (line :: others)) (empty : line.valid = false)
      (written : after.Perm (⟨tag, true, timer⟩ :: others)) : SetServed tag timer victim lines false after
  | evict (line : CacheLine) (others after : List CacheLine) (absent : ∀ known ∈ lines, known.valid = true → known.tag ≠ tag)
      (full : ∀ known ∈ lines, known.valid = true) (chosen : lines[victim]? = some line)
      (found : lines.Perm (line :: others)) (written : after.Perm (⟨tag, true, timer⟩ :: others)) :
      SetServed tag timer victim lines false after

theorem served_length (tag : U64) (timer victim : Nat) (lines after : List CacheLine) (hit : Bool)
    (served : SetServed tag timer victim lines hit after) : after.length = lines.length := by
  cases served with
  | hit line others _ found _ _ written | fill line others _ _ found _ written | evict line others _ _ _ _ found written =>
      rw [written.length_eq, found.length_eq, List.length_cons, List.length_cons]

theorem hit_slot_some (lines : List CacheLine) (tag : U64) (i : Nat) (slot : hitSlot lines tag = some i) :
    ∃ line, lines[i]? = some line ∧ line.valid = true ∧ line.tag = tag := by
  obtain ⟨inside, matching, _⟩ := List.findIdx?_eq_some_iff_getElem.mp slot
  rw [Bool.and_eq_true, beq_iff_eq] at matching
  exact ⟨lines[i], List.getElem?_eq_getElem inside, matching.1, matching.2⟩

theorem hit_slot_none (lines : List CacheLine) (tag : U64) (slot : hitSlot lines tag = none) :
    ∀ known ∈ lines, known.valid = true → known.tag ≠ tag := by
  intro known resident valid same
  have missed := List.findIdx?_eq_none_iff.mp slot known resident
  rw [valid, same, beq_self_eq_true] at missed
  cases missed

theorem empty_slot_some (lines : List CacheLine) (i : Nat) (slot : emptySlot lines = some i) :
    ∃ line, lines[i]? = some line ∧ line.valid = false := by
  obtain ⟨inside, matching, _⟩ := List.findIdx?_eq_some_iff_getElem.mp slot
  rw [Bool.not_eq_true'] at matching
  exact ⟨lines[i], List.getElem?_eq_getElem inside, matching⟩

theorem empty_slot_first (lines : List CacheLine) (i j : Nat) (known : CacheLine) (slot : emptySlot lines = some i)
    (before : j < i) (found : lines[j]? = some known) : known.valid = true := by
  obtain ⟨_, _, first⟩ := List.findIdx?_eq_some_iff_getElem.mp slot
  obtain ⟨inside, rfl⟩ := List.getElem?_eq_some_iff.mp found
  have filled := first j before
  rwa [Bool.not_eq_true', Bool.not_eq_false] at filled

theorem empty_slot_none (lines : List CacheLine) (slot : emptySlot lines = none) :
    ∀ known ∈ lines, known.valid = true := by
  intro known resident
  have missed := List.findIdx?_eq_none_iff.mp slot known resident
  rwa [Bool.not_eq_false'] at missed

def withSet (cache : CacheLevel) (set : Nat) (hit : Bool) (lines : List CacheLine) : CacheLevel :=
  { cache with
    hits := cache.hits + if hit then 1 else 0
    misses := cache.misses + if hit then 0 else 1
    sets := Function.update cache.sets set lines }

inductive SlotWritten (tag : U64) (victim : Nat) (lines : List CacheLine) (i : Nat) : Bool → Prop where
  | hit (line : CacheLine) (found : lines[i]? = some line) (valid : line.valid = true) (same : line.tag = tag) :
      SlotWritten tag victim lines i true
  | fill (line : CacheLine) (found : lines[i]? = some line) (empty : line.valid = false)
      (absent : ∀ known ∈ lines, known.valid = true → known.tag ≠ tag)
      (first : ∀ j known, j < i → lines[j]? = some known → known.valid = true) : SlotWritten tag victim lines i false
  | evict (line : CacheLine) (found : lines[i]? = some line) (chosen : i = victim) (full : ∀ known ∈ lines, known.valid = true)
      (absent : ∀ known ∈ lines, known.valid = true → known.tag ≠ tag) : SlotWritten tag victim lines i false

theorem slot_served (tag : U64) (timer victim : Nat) (lines : List CacheLine) (i : Nat) (hit : Bool)
    (slot : SlotWritten tag victim lines i hit) : SetServed tag timer victim lines hit (lines.set i ⟨tag, true, timer⟩) := by
  cases slot with
  | hit line found valid same =>
      have written := set_perm lines i line ⟨tag, true, timer⟩ found
      refine .hit line _ _ (slot_perm lines i line found) valid same ?_
      rw [valid, same]
      exact written
  | fill line found empty absent _ =>
      exact .fill line _ _ absent (slot_perm lines i line found) empty (set_perm lines i line _ found)
  | evict line found chosen full absent =>
      exact .evict line _ _ absent full (chosen ▸ found) (slot_perm lines i line found) (set_perm lines i line _ found)

section Effect

variable (policy : ReplacementPolicy) (globalTimer : Nat) (cache : CacheLevel) (traces : List MemAccess) (currentIdx : Nat)
  (chosen : victimOf policy cache (cache.sets (indexOf cache (addrAt traces currentIdx))) traces currentIdx <
    (cache.sets (indexOf cache (addrAt traces currentIdx))).length)

include chosen

theorem cache_access_slot :
    ∃ i hit, SlotWritten (tagOf cache (addrAt traces currentIdx))
        (victimOf policy cache (cache.sets (indexOf cache (addrAt traces currentIdx))) traces currentIdx)
        (cache.sets (indexOf cache (addrAt traces currentIdx))) i hit ∧
      cacheAccess policy globalTimer cache traces currentIdx =
        ((globalTimer + 1) % 2 ^ 32, withSet cache (indexOf cache (addrAt traces currentIdx)) hit
          ((cache.sets (indexOf cache (addrAt traces currentIdx))).set i
            ⟨tagOf cache (addrAt traces currentIdx), true, (globalTimer + 1) % 2 ^ 32⟩)) := by
  simp only [cacheAccess]
  generalize addrAt traces currentIdx = address at chosen ⊢
  generalize cache.sets (indexOf cache address) = lines at chosen ⊢
  cases slot : hitSlot lines (tagOf cache address) with
  | some i =>
      obtain ⟨line, found, valid, same⟩ := hit_slot_some lines _ i slot
      refine ⟨i, true, .hit line found valid same, ?_⟩
      simp only [withSet, if_true, Nat.add_zero, modify_found lines i line _ found, valid, same]
  | none =>
      have absent := hit_slot_none lines _ slot
      cases empty : emptySlot lines with
      | some i =>
          obtain ⟨line, found, invalid⟩ := empty_slot_some lines i empty
          refine ⟨i, false, .fill line found invalid absent fun j known => empty_slot_first lines i j known empty, ?_⟩
          simp only [withSet, Bool.false_eq_true, if_false, Nat.add_zero, modify_found lines i line _ found]
      | none =>
          have full := empty_slot_none lines empty
          have found := List.getElem?_eq_getElem chosen
          refine ⟨_, false, .evict _ found rfl full absent, ?_⟩
          simp only [withSet, Bool.false_eq_true, if_false, Nat.add_zero, modify_found lines _ _ _ found,
            full _ (List.getElem_mem chosen)]

theorem cache_access_effect :
    ∃ hit after,
      SetServed (tagOf cache (addrAt traces currentIdx)) ((globalTimer + 1) % 2 ^ 32)
        (victimOf policy cache (cache.sets (indexOf cache (addrAt traces currentIdx))) traces currentIdx)
        (cache.sets (indexOf cache (addrAt traces currentIdx))) hit after ∧
      cacheAccess policy globalTimer cache traces currentIdx =
        ((globalTimer + 1) % 2 ^ 32, withSet cache (indexOf cache (addrAt traces currentIdx)) hit after) := by
  obtain ⟨i, hit, slot, done⟩ := cache_access_slot policy globalTimer cache traces currentIdx chosen
  exact ⟨hit, _, slot_served _ _ _ _ i hit slot, done⟩

end Effect

end CpuEmulator.Cache
