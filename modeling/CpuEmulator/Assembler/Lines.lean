import CpuEmulator.Assembler.ParseAssembly
import CpuEmulator.Assembler.Split
import CpuEmulator.Library.Addresses

set_option autoImplicit false

namespace CpuEmulator.Assembler

open Library Library.Addresses

def strip (text : Text) : Text := text.takeWhile (fun c => !(c == ';'))

def visible (line : Text) : Text := strip (cString line)

def labelKey (line : Text) : Option Text :=
  if isEmpty (visible line) then none else ((visible line).findIdx? (· == ':')).map (fun colon => (visible line).take colon)

-- The table keeps as much of a key as an entry has room for.
def kindOf (line : Text) : Kind Text :=
  match labelKey line with
  | some key => .label (key.take keyRoom)
  | none => if isEmpty (visible line) then .blank else .instruction

theorem kind_label_iff (line kept : Text) :
    kindOf line = .label kept ↔ ∃ key, labelKey line = some key ∧ key.take keyRoom = kept := by
  rw [kindOf]
  constructor
  · intro same
    cases defines : labelKey line with
    | none =>
        rw [defines] at same
        cases empty : isEmpty (visible line) <;> rw [empty] at same <;> cases same
    | some key =>
        rw [defines] at same
        exact ⟨key, rfl, Kind.label.inj same⟩
  · rintro ⟨key, defines, rfl⟩
    rw [defines]

theorem label_key_kind (line written : Text) (defines : written ∈ labelKey line) : kindOf line = .label (written.take keyRoom) :=
  (kind_label_iff line _).mpr ⟨written, defines, rfl⟩

section Texts

theorem line_array_text (line : Text) : (lineArray line).text = cString line := by
  rw [lineArray, Buffer.ofBytes, cString, cString, List.takeWhile_append]
  have zeros (n : Nat) : (List.replicate n nul).takeWhile (· != nul) = [] := by
    cases n with
    | zero => rfl
    | succ n => rw [List.replicate_succ, List.takeWhile_cons, if_neg (by decide)]
  by_cases whole : (line.takeWhile (· != nul)).length = line.length
  · have kept : line.takeWhile (· != nul) <+: line := List.takeWhile_prefix _
    rw [if_pos whole, zeros, List.append_nil, kept.eq_of_length whole]
  · rw [if_neg whole]

theorem remove_comment_text (str : Buffer) : (removeComment str).text = strip str.text := by
  obtain ⟨word, tail, split, passes, stops⟩ := break_at (· == ';') str.text
  have skipped : word.findIdx? (· == ';') = none := List.findIdx?_eq_none_iff.mpr passes
  have kept : strip (word ++ tail) = word := take_while_break (· == ';') word tail passes stops
  rw [removeComment, split, kept, List.findIdx?_append, skipped]
  obtain rfl | ⟨c, after, rfl, stop⟩ := stops
  · rw [List.findIdx?_nil, Option.map_none, Option.or_none]
    dsimp only
    rw [split, List.append_nil]
  · rw [List.findIdx?_cons, stop, if_pos rfl, Option.map_some, Option.none_or, Nat.zero_add]
    exact List.take_left

theorem is_empty_strip (text : Text) : isEmpty (strip text) = isEmpty text := by
  induction text with
  | nil => rfl
  | cons c text ih =>
      by_cases comment : c = ';'
      · rw [comment]
        rfl
      · have other : (c == ';') = false := beq_eq_false_iff_ne.mpr comment
        have kept : strip (c :: text) = c :: strip text := by rw [strip, List.takeWhile_cons, other, Bool.not_false, if_pos rfl, strip]
        rw [kept, isEmpty, isEmpty, ih, other]

theorem has_text_visible (line : Text) : hasText line = !isEmpty (visible line) := by
  rw [hasText, line_array_text, visible, is_empty_strip]
  cases line with
  | nil => rfl
  | cons c line => rfl

end Texts

section Keys

variable (labels : Labels) (key : Text) (value : U64)

theorem set_item_perm (chain : List LabelAddress) (i : Nat)
    (found : chain.findIdx? (fun entry => entry.key == key) = some i) :
    ∃ old others, chain.Perm (⟨key, old⟩ :: others) ∧
      (chain.modify i fun entry => { entry with value := value }).Perm (⟨key, value⟩ :: others) := by
  obtain ⟨inside, same, _⟩ := List.findIdx?_eq_some_iff_getElem.mp found
  have bound : i < (chain.modify i fun entry => { entry with value := value }).length := by
    rw [List.length_modify]
    exact inside
  have item : chain[i] = ⟨key, chain[i].value⟩ := by rw [← beq_iff_eq.mp same]
  have before := (List.getElem_cons_eraseIdx_perm inside).symm
  have after := (List.getElem_cons_eraseIdx_perm bound).symm
  rw [List.eraseIdx_modify_of_eq, List.getElem_modify_eq, beq_iff_eq.mp same] at after
  rw [item] at before
  exact ⟨_, _, before, after⟩

inductive Written : List LabelAddress → List LabelAddress → Prop where
  | changed (before after others : List LabelAddress) (old : U64) (had : before.Perm (⟨key, old⟩ :: others))
      (has : after.Perm (⟨key, value⟩ :: others)) : Written before after
  | added (before after : List LabelAddress) (fresh : ∀ entry ∈ before, entry.key ≠ key)
      (has : after.Perm (⟨key.take keyRoom, value⟩ :: before)) : Written before after

theorem put_written (sound : Sound labels) :
    Sound (put labels key value) ∧ Written key value labels.entries (put labels key value).entries := by
  rw [put]
  cases found : hashFindStr labels key with
  | none =>
      obtain ⟨still, perm⟩ := add_entries labels sound ⟨key.take keyRoom, value⟩
      refine ⟨still, .added _ _ (fun entry member same => ?_) perm⟩
      have known := (find_in_entries labels sound key).mpr ⟨entry, member, same⟩
      rw [found] at known
      cases known
  | some i =>
      dsimp only
      rw [hashFindStr, bucket_at_chain] at found
      have below : hashFindBkt labels key < (chainsOf labels.buckets).length := by
        rw [chains_length]
        exact to_bkt_below _ _ sound.filled
      obtain ⟨others, before, after⟩ := Buckets.modify_perm (chainsOf labels.buckets) _
        (fun chain => chain.modify i fun entry => { entry with value := value }) below
      obtain ⟨old, rest, had, has⟩ := set_item_perm key value _ i found
      have chains := chains_modify labels.buckets (hashFindBkt labels key)
        (fun bucket => { bucket with chain := bucket.chain.modify i fun entry => { entry with value := value } })
        (fun chain => chain.modify i fun entry => { entry with value := value }) (fun _ => rfl)
      refine ⟨⟨?_, ?_⟩, .changed _ _ (rest ++ others) old (before.trans (had.append_right others)) ?_⟩
      · rw [List.length_modify]
        exact sound.filled
      · rw [chains, List.length_modify]
        refine Buckets.placed_modify _ _ _ sound.placed _ fun entry member => ?_
        rw [has.mem_iff] at member
        obtain rfl | member := List.mem_cons.mp member
        · rfl
        · exact sound.placed _ entry (had.mem_iff.mpr (List.mem_cons_of_mem _ member))
      · rw [HashTable.entries, chains]
        exact after.trans (has.append_right others)

theorem get_member (labels : Labels) (key : Text) (value : U64) (found : get labels key = some value) :
    ⟨key, value⟩ ∈ labels.entries := by
  rw [get, hashFindStr, bucket_at_chain] at found
  obtain ⟨i, position, here⟩ := Option.bind_eq_some_iff.mp found
  obtain ⟨inside, same, _⟩ := List.findIdx?_eq_some_iff_getElem.mp position
  rw [List.getElem?_eq_getElem inside, Option.map_some] at here
  have member := List.getElem_mem inside
  generalize (Buckets.bucket (chainsOf labels.buckets) (hashFindBkt labels key))[i] = entry at same here member
  obtain ⟨stored, old⟩ := entry
  obtain rfl : stored = key := beq_iff_eq.mp same
  obtain rfl : old = value := Option.some.inj here
  exact (Buckets.mem_flatten _ _).mpr ⟨_, member⟩

theorem get_known (sound : Sound labels) : (get labels key).isSome ↔ ∃ entry ∈ labels.entries, entry.key = key := by
  rw [← find_in_entries labels sound, get, hashFindStr, bucket_at_chain]
  cases position : List.findIdx? _ _ with
  | none => rfl
  | some i =>
      obtain ⟨inside, _⟩ := List.findIdx?_eq_some_iff_getElem.mp position
      rw [Option.bind_some, List.getElem?_eq_getElem inside]
      rfl

theorem get_empty : get hashMakeTable key = none := by
  refine Option.not_isSome_iff_eq_none.mp fun found => ?_
  obtain ⟨_, member, _⟩ := (get_known hashMakeTable key make_table_sound).mp found
  rw [make_table_entries] at member
  cases member

def ShortKeys (labels : Labels) : Prop := ∀ entry ∈ labels.entries, entry.key.length ≤ keyRoom

structure Updated (before after : List LabelAddress) (entry : LabelAddress) : Prop where
  has : entry ∈ after
  comes : ∀ other ∈ after, other = entry ∨ other ∈ before
  keeps : ∀ other ∈ before, other.key = entry.key ∨ other ∈ after

theorem put_updated (sound : Sound labels) (short : ShortKeys labels) :
    Updated labels.entries (put labels key value).entries ⟨key.take keyRoom, value⟩ := by
  cases (put_written labels key value sound).2 with
  | changed others old had has =>
      have kept : key.take keyRoom = key := List.take_of_length_le (short ⟨key, old⟩ (had.mem_iff.mpr List.mem_cons_self))
      rw [kept]
      refine ⟨has.mem_iff.mpr List.mem_cons_self, fun other member => ?_, fun other member => ?_⟩
      · obtain same | member := List.mem_cons.mp (has.mem_iff.mp member)
        · exact Or.inl same
        · exact Or.inr (had.mem_iff.mpr (List.mem_cons_of_mem _ member))
      · obtain rfl | member := List.mem_cons.mp (had.mem_iff.mp member)
        · exact Or.inl rfl
        · exact Or.inr (has.mem_iff.mpr (List.mem_cons_of_mem _ member))
  | added fresh has =>
      exact ⟨has.mem_iff.mpr List.mem_cons_self, fun other member => List.mem_cons.mp (has.mem_iff.mp member),
        fun other member => Or.inr (has.mem_iff.mpr (List.mem_cons_of_mem _ member))⟩

theorem put_keys_short (sound : Sound labels) (short : ShortKeys labels) : ShortKeys (put labels key value) := by
  intro entry member
  obtain rfl | member := (put_updated labels key value sound short).comes entry member
  · exact List.length_take_le _ _
  · exact short entry member

def Once (labels : Labels) (key : Text) : Prop := labels.entries.countP (fun entry => entry.key == key) ≤ 1

theorem get_once (sound : Sound labels) (once : Once labels key) : get labels key = some value ↔ ⟨key, value⟩ ∈ labels.entries := by
  refine ⟨get_member labels key value, fun member => ?_⟩
  obtain ⟨other, found⟩ := Option.isSome_iff_exists.mp ((get_known labels key sound).mpr ⟨_, member, rfl⟩)
  rw [found]
  have inside := get_member labels key other found
  have perm := List.perm_cons_erase member
  rw [Once, perm.countP_eq, List.countP_cons, if_pos (beq_self_eq_true key)] at once
  have alone := List.countP_eq_zero.mp (Nat.le_zero.mp (Nat.le_of_succ_le_succ once))
  obtain same | later := List.mem_cons.mp (perm.mem_iff.mp inside)
  · exact congrArg (fun entry : LabelAddress => some entry.value) same
  · exact absurd (beq_iff_eq.mpr rfl) (alone _ later)

theorem once_empty : Once hashMakeTable key := by
  rw [Once, make_table_entries]
  exact Nat.zero_le 1

theorem get_put (sound : Sound labels) (short : ShortKeys labels) (other : Text) (once : Once labels other)
    (whole : key.take keyRoom = other → key = other) :
    Once (put labels key value) other ∧
      get (put labels key value) other = if other = key.take keyRoom then some value else get labels other := by
  obtain ⟨still, written⟩ := put_written labels key value sound
  have kept : Once (put labels key value) other := by
    rw [Once] at once ⊢
    cases written with
    | changed others old had has =>
        rw [had.countP_eq, List.countP_cons] at once
        rw [has.countP_eq, List.countP_cons]
        exact once
    | added fresh has =>
        rw [has.countP_eq]
        by_cases asked : key.take keyRoom = other
        · rw [List.countP_cons, if_pos (beq_iff_eq.mpr asked)]
          have none : labels.entries.countP (fun entry => entry.key == other) = 0 := by
            rw [← whole asked]
            exact List.countP_eq_zero.mpr fun entry member same => fresh entry member (beq_iff_eq.mp same)
          rw [none]
        · rw [List.countP_cons, if_neg (fun same => asked (beq_iff_eq.mp same))]
          exact once
  have updated := put_updated labels key value sound short
  refine ⟨kept, ?_⟩
  by_cases asked : other = key.take keyRoom
  · rw [if_pos asked, get_once _ _ _ still kept, asked]
    exact updated.has
  · rw [if_neg asked]
    refine Option.ext fun found => ?_
    rw [get_once _ _ _ still kept, get_once _ _ _ sound once]
    constructor
    · intro member
      obtain same | member := updated.comes _ member
      · exact absurd (congrArg LabelAddress.key same) asked
      · exact member
    · exact fun member => (updated.keeps _ member).resolve_left asked

end Keys

end CpuEmulator.Assembler
