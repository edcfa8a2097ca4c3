import CpuEmulator.Cache.Hierarchy
import Mathlib.Data.List.Nodup

set_option autoImplicit false

namespace CpuEmulator.Cache

theorem sound_access_slot (policy : ReplacementPolicy) (globalTimer : Nat) (cache : CacheLevel) (traces : List MemAccess)
    (currentIdx : Nat) (sound : Sound cache) :
    ∃ i hit, SlotWritten (tagOf cache (addrAt traces currentIdx)) (victimAt policy cache traces currentIdx)
        (cache.sets (indexOf cache (addrAt traces currentIdx))) i hit ∧
      (cacheAccess policy globalTimer cache traces currentIdx).2 =
        withSet cache (indexOf cache (addrAt traces currentIdx)) hit
          ((cache.sets (indexOf cache (addrAt traces currentIdx))).set i
            ⟨tagOf cache (addrAt traces currentIdx), true, (globalTimer + 1) % 2 ^ 32⟩) := by
  obtain ⟨i, hit, slot, done⟩ := cache_access_slot policy globalTimer cache traces currentIdx
    (sound_victim_below policy cache traces currentIdx sound)
  exact ⟨i, hit, slot, by rw [done]⟩

def Keeps (cache : CacheLevel) (set i line : Nat) : Prop :=
  ∃ entry, (cache.sets set)[i]? = some entry ∧ entry.valid = true ∧ storedLine cache set entry = line

def Resident (cache : CacheLevel) (line : Nat) : Prop := ∃ i, Keeps cache (line % cache.numSets) i line

def SlotReplaced (before after : CacheLevel) (set i line : Nat) : Prop := Keeps before set i line ∧ ¬ Keeps after set i line

def Replaced (before after : CacheLevel) (line : Nat) : Prop := ∃ set i, SlotReplaced before after set i line

section Access

variable (cache : CacheLevel) (address : U64) (timer i : Nat) (hit : Bool) {victim : Nat}

def written : CacheLevel :=
  withSet cache (indexOf cache address) hit ((cache.sets (indexOf cache address)).set i ⟨tagOf cache address, true, timer⟩)

theorem keeps_written (shaped : Shaped cache) (inside : i < (cache.sets (indexOf cache address)).length) (set j line : Nat) :
    Keeps (written cache address timer i hit) set j line ↔
      if set = indexOf cache address ∧ j = i then line = lineOf cache address else Keeps cache set j line := by
  have stores : storedLine (written cache address timer i hit) = storedLine cache := rfl
  rw [Keeps, stores]
  simp only [written, withSet]
  by_cases here : set = indexOf cache address
  · subst here
    rw [Function.update_self, List.getElem?_set]
    by_cases same : j = i
    · subst same
      have arrives : storedLine cache (indexOf cache address) ⟨tagOf cache address, true, timer⟩ = lineOf cache address :=
        (stored_line_here cache address shaped _).mpr rfl
      rw [if_pos rfl, if_pos inside, if_pos ⟨rfl, rfl⟩]
      constructor
      · rintro ⟨entry, found, _, stored⟩
        rw [← Option.some.inj found, arrives] at stored
        exact stored.symm
      · rintro rfl
        exact ⟨_, rfl, rfl, arrives⟩
    · rw [if_neg (Ne.symm same), if_neg fun both => same both.2]
      rfl
  · rw [Function.update_of_ne here, if_neg fun both => here both.1]
    rfl

theorem keeps_set (set line : Nat) (below : set < cache.numSets) (keeps : Keeps cache set i line) :
    line % cache.numSets = set := by
  obtain ⟨entry, _, _, rfl⟩ := keeps
  rw [storedLine, Nat.mul_add_mod_self_right, Nat.mod_eq_of_lt below]

theorem keeps_written_other (shaped : Shaped cache) (inside : i < (cache.sets (indexOf cache address)).length)
    (set j line : Nat) (other : ¬ (set = indexOf cache address ∧ j = i)) :
    Keeps (written cache address timer i hit) set j line ↔ Keeps cache set j line := by
  rw [keeps_written cache address timer i hit shaped inside, if_neg other]

theorem replaced_slot (shaped : Shaped cache) (inside : i < (cache.sets (indexOf cache address)).length) (set j line : Nat)
    (replaced : SlotReplaced cache (written cache address timer i hit) set j line) : set = indexOf cache address ∧ j = i := by
  by_contra other
  exact replaced.2 ((keeps_written_other cache address timer i hit shaped inside set j line other).mpr replaced.1)

theorem line_set (shaped : Shaped cache) : lineOf cache address % cache.numSets = indexOf cache address :=
  (index_of_line cache address shaped).symm

theorem keeps_once (sound : Sound cache) (set j k line : Nat) (first : Keeps cache set j line) (second : Keeps cache set k line) :
    j = k := by
  obtain ⟨entry, found, valid, stored⟩ := first
  obtain ⟨other, again, alsoValid, same⟩ := second
  obtain ⟨inside, rfl⟩ := List.getElem?_eq_some_iff.mp found
  obtain ⟨below, rfl⟩ := List.getElem?_eq_some_iff.mp again
  have distinct := sound.distinct set
  rw [residentLines, linesOf, List.Nodup, List.pairwise_map, List.pairwise_filter, List.pairwise_iff_getElem] at distinct
  rcases Nat.lt_trichotomy j k with before | same | after
  · exact absurd (stored.trans same.symm) (distinct j k inside below before valid alsoValid)
  · exact same
  · exact absurd (same.trans stored.symm) (distinct k j below inside after alsoValid valid)

theorem slot_inside (tag : U64) (lines : List CacheLine) (slot : SlotWritten tag victim lines i hit) : i < lines.length := by
  cases slot with
  | hit line found | fill line found | evict line found => exact (List.getElem?_eq_some_iff.mp found).1

theorem hit_resident (shaped : Shaped cache)
    (slot : SlotWritten (tagOf cache address) victim (cache.sets (indexOf cache address)) i hit) :
    hit = true ↔ Resident cache (lineOf cache address) := by
  have absent (none : ∀ known ∈ cache.sets (indexOf cache address), known.valid = true → known.tag ≠ tagOf cache address) :
      ¬ Resident cache (lineOf cache address) := by
    rintro ⟨j, entry, found, valid, stored⟩
    rw [line_set cache address shaped] at found stored
    exact none entry (List.mem_of_getElem? found) valid ((stored_line_here cache address shaped entry).mp stored)
  cases slot with
  | hit line found valid same =>
      refine iff_of_true rfl ⟨i, line, ?_, valid, ?_⟩
      · rw [line_set cache address shaped]
        exact found
      · rw [line_set cache address shaped]
        exact (stored_line_here cache address shaped line).mpr same
  | fill line _ _ none => exact iff_of_false Bool.false_ne_true (absent none)
  | evict line _ _ _ none => exact iff_of_false Bool.false_ne_true (absent none)

theorem written_resident (shaped : Shaped cache) (inside : i < (cache.sets (indexOf cache address)).length) :
    Resident (written cache address timer i hit) (lineOf cache address) := by
  refine ⟨i, ?_⟩
  rw [keeps_written cache address timer i hit shaped inside]
  exact (if_pos ⟨line_set cache address shaped, rfl⟩).mpr rfl

theorem resident_step (sound : Sound cache)
    (slot : SlotWritten (tagOf cache address) victim (cache.sets (indexOf cache address)) i hit) (line : Nat) :
    Resident (written cache address timer i hit) line ↔
      (hit = false ∧ lineOf cache address = line) ∨
        Resident cache line ∧ ¬ Replaced cache (written cache address timer i hit) line := by
  have shaped := sound.shaped
  have inside := slot_inside i hit _ _ slot
  have resident := hit_resident cache address i hit shaped slot
  have after := keeps_written cache address timer i hit shaped inside
  by_cases mine : line = lineOf cache address
  · subst mine
    refine iff_of_true (written_resident cache address timer i hit shaped inside) ?_
    cases hit with
    | false => exact Or.inl ⟨rfl, rfl⟩
    | true =>
        refine Or.inr ⟨resident.mp rfl, ?_⟩
        rintro ⟨set, j, replaced⟩
        have here := replaced_slot cache address timer i true shaped inside set j _ replaced
        exact replaced.2 ((after set j _).mpr ((if_pos here).mpr rfl))
  · constructor
    · rintro ⟨j, keeps⟩
      rw [after] at keeps
      split at keeps
      · exact absurd keeps mine
      · rename_i elsewhere
        refine Or.inr ⟨⟨j, keeps⟩, ?_⟩
        rintro ⟨set, k, replaced⟩
        obtain ⟨rfl, rfl⟩ := replaced_slot cache address timer i hit shaped inside set k line replaced
        have home : line % (written cache address timer k hit).numSets = indexOf cache address :=
          keeps_set cache k _ line (index_below cache address shaped) replaced.1
        rw [home] at keeps elsewhere
        exact elsewhere ⟨rfl, keeps_once cache sound _ j k line keeps replaced.1⟩
    · rintro (⟨_, same⟩ | ⟨⟨j, keeps⟩, survives⟩)
      · exact absurd same.symm mine
      · refine ⟨j, ?_⟩
        by_contra gone
        exact survives ⟨line % cache.numSets, j, keeps, gone⟩

end Access

def FilledTo (lines : List CacheLine) (count : Nat) : Prop :=
  ∀ i entry, lines[i]? = some entry → (entry.valid = true ↔ i < count)

theorem filled_written {victim : Nat} (tag : U64) (timer : Nat) (lines : List CacheLine) (i : Nat) (hit : Bool) (count : Nat)
    (slot : SlotWritten tag victim lines i hit) (filled : FilledTo lines count) :
    ∃ grown, FilledTo (lines.set i ⟨tag, true, timer⟩) grown := by
  have inside := slot_inside i hit tag lines slot
  have rewritten (grown : Nat) (here : i < grown) (others : ∀ j, j ≠ i → (j < grown ↔ j < count)) :
      FilledTo (lines.set i ⟨tag, true, timer⟩) grown := by
    intro j entry found
    rw [List.getElem?_set] at found
    by_cases same : i = j
    · subst same
      rw [if_pos rfl, if_pos inside] at found
      rw [← Option.some.inj found]
      exact iff_of_true rfl here
    · rw [if_neg same] at found
      rw [others j (Ne.symm same)]
      exact filled j entry found
  cases slot with
  | hit line found valid _ => exact ⟨count, rewritten count ((filled i line found).mp valid) fun _ _ => Iff.rfl⟩
  | evict line found _ full _ =>
      exact ⟨count, rewritten count ((filled i line found).mp (full line (List.mem_of_getElem? found))) fun _ _ => Iff.rfl⟩
  | fill line found empty _ first =>
      have atEnd : count = i := by
        apply le_antisymm
        · by_contra beyond
          have valid := (filled i line found).mpr (Nat.not_le.mp beyond)
          rw [empty] at valid
          cases valid
        · by_contra short
          have before := Nat.not_le.mp short
          have earlier := List.getElem?_eq_getElem (Nat.lt_trans before inside)
          exact absurd ((filled count _ earlier).mp (first count _ before earlier)) (Nat.lt_irrefl count)
      exact ⟨count + 1, rewritten (count + 1) (by omega) fun j other => by omega⟩

theorem distinct_tags (cache : CacheLevel) (sound : Sound cache) (set : Nat) :
    (cache.sets set).Pairwise fun a b => a.valid = true → b.valid = true → a.tag ≠ b.tag := by
  have distinct := sound.distinct set
  rw [residentLines, linesOf, List.Nodup, List.pairwise_map, List.pairwise_filter] at distinct
  refine distinct.imp fun apart valid alsoValid same => apart valid alsoValid ?_
  rw [storedLine, storedLine, same]

theorem same_entry_iff (cache : CacheLevel) (shaped : Shaped cache) (a b : U64) :
    indexOf cache a = indexOf cache b ∧ tagOf cache a = tagOf cache b ↔ lineOf cache a = lineOf cache b := by
  have first := Nat.div_add_mod (lineOf cache a) cache.numSets
  have second := Nat.div_add_mod (lineOf cache b) cache.numSets
  rw [← BitVec.toNat_inj, tag_of_line cache a shaped, tag_of_line cache b shaped, index_of_line cache a shaped,
    index_of_line cache b shaped]
  constructor
  · rintro ⟨index, tag⟩
    rw [← first, ← second, index, tag]
  · intro same
    rw [same]
    exact ⟨rfl, rfl⟩

theorem replaced_evicts {victim : Nat} (cache : CacheLevel) (address : U64) (timer i : Nat) (hit : Bool) (shaped : Shaped cache)
    (slot : SlotWritten (tagOf cache address) victim (cache.sets (indexOf cache address)) i hit) (set j line : Nat)
    (replaced : SlotReplaced cache (written cache address timer i hit) set j line) :
    hit = false ∧ set = indexOf cache address ∧ ∀ entry ∈ cache.sets set, entry.valid = true := by
  have inside := slot_inside i hit _ _ slot
  obtain ⟨rfl, rfl⟩ := replaced_slot cache address timer i hit shaped inside set j line replaced
  obtain ⟨⟨entry, found, valid, stored⟩, gone⟩ := replaced
  cases slot with
  | hit known again _ same =>
      obtain rfl := Option.some.inj (found.symm.trans again)
      have mine := (stored_line_here cache address shaped entry).mpr same
      refine absurd ?_ gone
      rw [keeps_written cache address timer j true shaped inside, if_pos ⟨rfl, rfl⟩, ← stored, mine]
  | fill known again empty _ _ =>
      obtain rfl := Option.some.inj (found.symm.trans again)
      rw [empty] at valid
      cases valid
  | evict _ _ _ full _ => exact ⟨rfl, rfl, full⟩

end CpuEmulator.Cache
