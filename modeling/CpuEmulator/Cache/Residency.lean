import CpuEmulator.Cache.Victim
import CpuEmulator.Library.Paging

set_option autoImplicit false

namespace CpuEmulator.Cache

open Library

def linesOf (cache : CacheLevel) (set : Nat) (lines : List CacheLine) : List Nat :=
  (lines.filter (fun line => line.valid)).map (storedLine cache set)

def residentLines (cache : CacheLevel) (set : Nat) : List Nat := linesOf cache set (cache.sets set)

structure Sound (cache : CacheLevel) : Prop where
  shaped : Shaped cache
  slots : ∀ set, (cache.sets set).length = cache.associativity
  distinct : ∀ set, (residentLines cache set).Nodup

inductive LinesServed (ways line : Nat) (before : List Nat) (admits : Nat → Prop) : Bool → List Nat → Prop where
  | hit (after : List Nat) (resident : line ∈ before) (same : after.Perm before) : LinesServed ways line before admits true after
  | fill (after : List Nat) (absent : line ∉ before) (room : before.length < ways) (grown : after.Perm (line :: before)) :
      LinesServed ways line before admits false after
  | replace (victim : Nat) (others after : List Nat) (absent : line ∉ before) (full : before.length = ways)
      (known : before.Perm (victim :: others)) (admitted : admits victim) (swapped : after.Perm (line :: others)) :
      LinesServed ways line before admits false after

theorem lines_served_distinct (ways line : Nat) (before after : List Nat) (admits : Nat → Prop) (hit : Bool)
    (served : LinesServed ways line before admits hit after) (distinct : before.Nodup) : after.Nodup := by
  cases served with
  | hit _ _ same => exact same.nodup_iff.mpr distinct
  | fill _ absent _ grown => exact grown.nodup_iff.mpr (List.nodup_cons.mpr ⟨absent, distinct⟩)
  | replace victim others _ absent _ known _ swapped =>
      have rest := (List.nodup_cons.mp (known.nodup_iff.mp distinct)).2
      have missing : line ∉ others := fun here => absent (known.symm.subset (List.mem_cons_of_mem victim here))
      exact swapped.nodup_iff.mpr (List.nodup_cons.mpr ⟨missing, rest⟩)

theorem lines_served_paging (ways line : Nat) (before after : List Nat) (admits : Nat → Prop) (hit : Bool)
    (served : LinesServed ways line before admits hit after) (distinct : before.Nodup) :
    Paging.Serve ways (fun _ victim => admits victim) before.toFinset line after.toFinset (if hit then 0 else 1) := by
  have card := List.toFinset_card_of_nodup distinct
  cases served with
  | hit _ resident same =>
      rw [List.toFinset_eq_of_perm _ _ same]
      exact .hit (List.mem_toFinset.mpr resident)
  | fill _ absent room grown =>
      rw [List.toFinset_eq_of_perm _ _ grown, List.toFinset_cons]
      exact .fill (fun here => absent (List.mem_toFinset.mp here)) (by omega)
  | replace victim others _ absent full known admitted swapped =>
      have gone : others.toFinset = before.toFinset.erase victim := by
        have once := (List.nodup_cons.mp (known.nodup_iff.mp distinct)).1
        rw [List.toFinset_eq_of_perm _ _ known, List.toFinset_cons]
        exact (Finset.erase_insert (fun here => once (List.mem_toFinset.mp here))).symm
      rw [List.toFinset_eq_of_perm _ _ swapped, List.toFinset_cons, gone]
      exact .replace victim (fun here => absent (List.mem_toFinset.mp here)) (by omega)
        (List.mem_toFinset.mpr (known.symm.subset List.mem_cons_self)) admitted

section Set

variable (cache : CacheLevel) (set : Nat)

theorem lines_of_perm (first second : List CacheLine) (perm : first.Perm second) :
    (linesOf cache set first).Perm (linesOf cache set second) := (perm.filter _).map _

theorem lines_of_valid (line : CacheLine) (others : List CacheLine) (valid : line.valid = true) :
    linesOf cache set (line :: others) = storedLine cache set line :: linesOf cache set others := by
  rw [linesOf, List.filter_cons_of_pos valid, List.map_cons, linesOf]

theorem lines_of_invalid (line : CacheLine) (others : List CacheLine) (empty : line.valid = false) :
    linesOf cache set (line :: others) = linesOf cache set others := by
  rw [linesOf, List.filter_cons_of_neg (by rw [empty]; exact Bool.false_ne_true), linesOf]

theorem lines_of_length (lines : List CacheLine) : (linesOf cache set lines).length ≤ lines.length := by
  rw [linesOf, List.length_map]
  exact List.length_filter_le _ _

theorem lines_of_full (lines : List CacheLine) (full : ∀ known ∈ lines, known.valid = true) :
    linesOf cache set lines = lines.map (storedLine cache set) := by
  rw [linesOf, List.filter_eq_self.mpr full]

theorem mem_valid {α : Type} (f : CacheLine → α) (lines : List CacheLine) (value : α) :
    value ∈ (lines.filter (fun line => line.valid)).map f ↔ ∃ line ∈ lines, line.valid = true ∧ f line = value := by
  rw [List.mem_map]
  constructor
  · rintro ⟨line, kept, same⟩
    rw [List.mem_filter] at kept
    exact ⟨line, kept.1, kept.2, same⟩
  · rintro ⟨line, known, valid, same⟩
    exact ⟨line, List.mem_filter.mpr ⟨known, valid⟩, same⟩

theorem mem_lines_of (lines : List CacheLine) (number : Nat) :
    number ∈ linesOf cache set lines ↔ ∃ line ∈ lines, line.valid = true ∧ storedLine cache set line = number :=
  mem_valid (storedLine cache set) lines number

end Set

def Evicts (lines : List CacheLine) (tag : U64) : Prop :=
  (∀ known ∈ lines, known.valid = true) ∧ ∀ known ∈ lines, known.tag ≠ tag

instance (lines : List CacheLine) (tag : U64) : Decidable (Evicts lines tag) := inferInstanceAs (Decidable (_ ∧ _))

def Chosen (cache : CacheLevel) (set victim : Nat) (lines : List CacheLine) (tag : U64) (number : Nat) : Prop :=
  Evicts lines tag ∧ ∃ line, lines[victim]? = some line ∧ storedLine cache set line = number

theorem absent_line (cache : CacheLevel) (shaped : Shaped cache) (address : U64) (lines : List CacheLine)
    (absent : ∀ known ∈ lines, known.valid = true → known.tag ≠ tagOf cache address) :
    lineOf cache address ∉ linesOf cache (indexOf cache address) lines := by
  intro here
  obtain ⟨line, known, valid, same⟩ := (mem_lines_of cache _ lines _).mp here
  exact absent line known valid ((stored_line_here cache address shaped line).mp same)

theorem set_served_lines (cache : CacheLevel) (shaped : Shaped cache) (address : U64) (timer victim : Nat)
    (lines after : List CacheLine) (hit : Bool)
    (served : SetServed (tagOf cache address) timer victim lines hit after) :
    LinesServed lines.length (lineOf cache address) (linesOf cache (indexOf cache address) lines)
      (Chosen cache (indexOf cache address) victim lines (tagOf cache address)) hit (linesOf cache (indexOf cache address) after) := by
  have arrives : storedLine cache (indexOf cache address) ⟨tagOf cache address, true, timer⟩ = lineOf cache address :=
    (stored_line_here cache address shaped _).mpr rfl
  cases served with
  | hit line others _ found valid same written =>
      have old := lines_of_perm cache (indexOf cache address) _ _ found
      have new := lines_of_perm cache (indexOf cache address) _ _ written
      rw [lines_of_valid _ _ line others valid] at old
      rw [lines_of_valid _ _ { line with lastUsed := timer } others valid] at new
      have here := (stored_line_here cache address shaped line).mpr same
      exact .hit _ (old.symm.subset (by rw [here]; exact List.mem_cons_self)) (new.trans old.symm)
  | fill line others _ absent found empty written =>
      have old := lines_of_perm cache (indexOf cache address) _ _ found
      have new := lines_of_perm cache (indexOf cache address) _ _ written
      rw [lines_of_invalid _ _ _ _ empty] at old
      rw [lines_of_valid _ _ _ _ rfl, arrives] at new
      have short := lines_of_length cache (indexOf cache address) others
      refine .fill _ (absent_line cache shaped address lines absent) ?_ (new.trans (old.symm.cons _))
      rw [old.length_eq, found.length_eq, List.length_cons]
      omega
  | evict line others _ absent full chosen found written =>
      have old := lines_of_perm cache (indexOf cache address) _ _ found
      have new := lines_of_perm cache (indexOf cache address) _ _ written
      rw [lines_of_valid _ _ _ _ (full line (found.symm.subset List.mem_cons_self))] at old
      rw [lines_of_valid _ _ _ _ rfl, arrives] at new
      have evicts : Evicts lines (tagOf cache address) := ⟨full, fun known member => absent known member (full known member)⟩
      refine .replace _ _ _ (absent_line cache shaped address lines absent) ?_ old ⟨evicts, line, chosen, rfl⟩ new
      rw [lines_of_full cache _ lines full, List.length_map]

section Access

variable (policy : ReplacementPolicy) (globalTimer : Nat) (cache : CacheLevel) (traces : List MemAccess) (currentIdx : Nat)

theorem access_timer : (cacheAccess policy globalTimer cache traces currentIdx).1 = (globalTimer + 1) % 2 ^ 32 := by
  unfold cacheAccess
  dsimp only
  split
  · rfl
  · split <;> rfl

def victimAt : Nat :=
  victimOf policy cache (cache.sets (indexOf cache (addrAt traces currentIdx))) traces currentIdx

theorem sound_victim_below (sound : Sound cache) :
    victimAt policy cache traces currentIdx < (cache.sets (indexOf cache (addrAt traces currentIdx))).length := by
  apply victim_below
  rw [sound.slots]
  exact sound.shaped.ways

theorem sound_access_effect (sound : Sound cache) :
    ∃ hit after,
      SetServed (tagOf cache (addrAt traces currentIdx)) ((globalTimer + 1) % 2 ^ 32) (victimAt policy cache traces currentIdx)
        (cache.sets (indexOf cache (addrAt traces currentIdx))) hit after ∧
      (cacheAccess policy globalTimer cache traces currentIdx).2 =
        withSet cache (indexOf cache (addrAt traces currentIdx)) hit after := by
  obtain ⟨hit, after, served, done⟩ := cache_access_effect policy globalTimer cache traces currentIdx
    (sound_victim_below policy cache traces currentIdx sound)
  exact ⟨hit, after, served, by rw [done]⟩

end Access

theorem with_set_same (cache : CacheLevel) (set : Nat) (hit : Bool) (after : List CacheLine) :
    residentLines (withSet cache set hit after) set = linesOf cache set after := by
  simp only [residentLines, withSet, Function.update_self]
  rfl

theorem with_set_other (cache : CacheLevel) (set other : Nat) (hit : Bool) (after : List CacheLine) (apart : other ≠ set) :
    residentLines (withSet cache set hit after) other = residentLines cache other := by
  simp only [residentLines, withSet, Function.update_of_ne apart]
  rfl

theorem with_set_sound (cache : CacheLevel) (set : Nat) (hit : Bool) (after : List CacheLine) (sound : Sound cache)
    (slots : after.length = cache.associativity) (distinct : (linesOf cache set after).Nodup) :
    Sound (withSet cache set hit after) where
  shaped := ⟨sound.shaped.line, sound.shaped.sets, sound.shaped.ways⟩
  slots := by
    intro other
    by_cases same : other = set
    · subst same
      simp only [withSet, Function.update_self]
      exact slots
    · simp only [withSet, Function.update_of_ne same]
      exact sound.slots other
  distinct := by
    intro other
    by_cases same : other = set
    · subst same
      rw [with_set_same]
      exact distinct
    · rw [with_set_other cache set other hit after same]
      exact sound.distinct other

theorem access_sound (policy : ReplacementPolicy) (globalTimer : Nat) (cache : CacheLevel) (traces : List MemAccess)
    (currentIdx : Nat) (sound : Sound cache) : Sound (cacheAccess policy globalTimer cache traces currentIdx).2 := by
  obtain ⟨hit, after, served, done⟩ := sound_access_effect policy globalTimer cache traces currentIdx sound
  rw [done]
  apply with_set_sound cache _ hit after sound
  · rw [served_length _ _ _ _ _ _ served, sound.slots]
  · have moved := set_served_lines cache sound.shaped _ _ _ _ _ _ served
    exact lines_served_distinct _ _ _ _ _ _ moved (sound.distinct _)

end CpuEmulator.Cache
