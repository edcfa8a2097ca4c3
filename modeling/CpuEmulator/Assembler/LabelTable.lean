import CpuEmulator.Assembler.Lines
import Mathlib.Logic.Function.Basic

set_option autoImplicit false

namespace CpuEmulator.Assembler

def putAll (puts : List (Text × U64)) : Labels := puts.foldl (fun labels entry => put labels entry.1 entry.2) hashMakeTable

-- What a table is for: a name is known once it has been put, with the value of
-- the last put of that very name.
structure MapOnNames (puts : List (Text × U64)) : Prop where
  found : ∀ key, (get (putAll puts) key).isSome ↔ ∃ value, (key, value) ∈ puts
  last : ∀ before key value after, puts = before ++ (key, value) :: after → (∀ later ∈ after, later.1 ≠ key) →
    get (putAll puts) key = some value

def updates (puts : List (Text × U64)) : Text → Option U64 :=
  puts.foldl (fun map entry => Function.update map entry.1 (some entry.2)) (fun _ => none)

section Updates

variable (puts : List (Text × U64)) (key : Text)

theorem updates_snoc (entry : Text × U64) : updates (puts ++ [entry]) = Function.update (updates puts) entry.1 (some entry.2) := by
  rw [updates, List.foldl_append, updates]
  rfl

theorem updates_found : (updates puts key).isSome ↔ ∃ value, (key, value) ∈ puts := by
  induction puts using List.reverseRecOn with
  | nil => exact ⟨fun some => (by cases some), fun ⟨_, member⟩ => absurd member List.not_mem_nil⟩
  | append_singleton puts entry ih =>
      rw [updates_snoc, Function.update_apply]
      by_cases same : key = entry.1
      · rw [if_pos same]
        exact iff_of_true rfl ⟨entry.2, by rw [same]; exact List.mem_append_right _ List.mem_cons_self⟩
      · rw [if_neg same, ih]
        constructor
        · rintro ⟨value, member⟩
          exact ⟨value, List.mem_append_left _ member⟩
        · rintro ⟨value, member⟩
          obtain member | member := List.mem_append.mp member
          · exact ⟨value, member⟩
          · exact absurd (congrArg Prod.fst (List.mem_singleton.mp member)) same

theorem updates_last (before after : List (Text × U64)) (value : U64) (others : ∀ later ∈ after, later.1 ≠ key) :
    updates (before ++ (key, value) :: after) key = some value := by
  induction after using List.reverseRecOn with
  | nil => rw [updates_snoc, Function.update_self]
  | append_singleton after entry ih =>
      have other : entry.1 ≠ key := others entry (List.mem_append_right _ List.mem_cons_self)
      rw [← List.cons_append, ← List.append_assoc, updates_snoc, Function.update_of_ne other.symm,
        ih (fun later member => others later (List.mem_append_left _ member))]

end Updates

section Tables

variable (puts : List (Text × U64))

theorem put_all_snoc (entry : Text × U64) : putAll (puts ++ [entry]) = put (putAll puts) entry.1 entry.2 := by
  rw [putAll, List.foldl_append, putAll]
  rfl

theorem put_all_table : Sound (putAll puts) ∧ ShortKeys (putAll puts) := by
  induction puts using List.reverseRecOn with
  | nil => exact ⟨make_table_sound, fun _ member => absurd (make_table_entries ▸ member) List.not_mem_nil⟩
  | append_singleton puts entry ih =>
      obtain ⟨sound, short⟩ := ih
      rw [put_all_snoc]
      exact ⟨(put_written _ _ _ sound).1, put_keys_short _ _ _ sound short⟩

theorem found_short (key : Text) (found : (get (putAll puts) key).isSome) : key.length ≤ keyRoom := by
  obtain ⟨sound, short⟩ := put_all_table puts
  obtain ⟨entry, member, rfl⟩ := (get_known _ key sound).mp found
  exact short entry member

theorem put_all_updates (short : ∀ entry ∈ puts, entry.1.length ≤ keyRoom) (key : Text) :
    Once (putAll puts) key ∧ get (putAll puts) key = updates puts key := by
  induction puts using List.reverseRecOn with
  | nil => exact ⟨once_empty key, get_empty key⟩
  | append_singleton puts entry ih =>
      obtain ⟨once, found⟩ := ih fun earlier member => short earlier (List.mem_append_left _ member)
      obtain ⟨sound, keys⟩ := put_all_table puts
      have kept : entry.1.take keyRoom = entry.1 :=
        List.take_of_length_le (short entry (List.mem_append_right _ List.mem_cons_self))
      obtain ⟨still, updated⟩ := get_put (putAll puts) entry.1 entry.2 sound keys key once (fun same => kept.symm.trans same)
      rw [put_all_snoc, updated, updates_snoc, Function.update_apply, found, kept]
      exact ⟨still, rfl⟩

-- The table is a map on names exactly when every name that was put fits into an entry.
theorem label_table_is_map_iff : MapOnNames puts ↔ ∀ entry ∈ puts, entry.1.length ≤ keyRoom := by
  constructor
  · rintro ⟨found, _⟩ ⟨key, value⟩ member
    exact found_short puts key ((found key).mpr ⟨value, member⟩)
  · intro short
    have same (key : Text) : get (putAll puts) key = updates puts key := (put_all_updates puts short key).2
    refine ⟨fun key => ?_, fun before key value after split others => ?_⟩
    · rw [same, updates_found]
    · rw [same, split, updates_last key before after value others]

end Tables

-- A name of 64 characters is not found again, and the first 63 of them, which
-- nobody has put, are.
theorem long_label_is_lost : ¬ ∀ puts : List (Text × U64), (∀ entry ∈ puts, entry.1.length ≤ 254) → MapOnNames puts := by
  intro claimed
  have map := claimed [(List.replicate 64 'A', 1)] (by decide)
  have missing : (get (putAll [(List.replicate 64 'A', 1)]) (List.replicate 64 'A')).isSome = false := by
    decide +kernel
  rw [(map.found _).mpr ⟨1, List.mem_cons_self⟩] at missing
  cases missing

end CpuEmulator.Assembler
