import CpuEmulator.Assembler.ParseLine

set_option autoImplicit false

namespace CpuEmulator.Assembler

def spaces (n : Nat) : Text := List.replicate n ' '

def Spaceless (word : Text) : Prop := ∀ c ∈ word, c ≠ ' '

theorem spaceless_passes (word : Text) (spaceless : Spaceless word) : ∀ c ∈ word, (c == ' ') = false := fun c member =>
  beq_eq_false_iff_ne.mpr (spaceless c member)

theorem passes_spaceless (word : Text) (passes : ∀ c ∈ word, (c == ' ') = false) : Spaceless word := fun c member =>
  beq_eq_false_iff_ne.mp (passes c member)

theorem find_missing (c : Char) (text : Text) (missing : c ∉ text) : text.findIdx? (· == c) = none :=
  List.findIdx?_eq_none_iff.mpr (fun _ member => beq_eq_false_iff_ne.mpr (fun same => missing (same ▸ member)))

theorem word_head (word after : Text) (filled : word ≠ []) (spaceless : Spaceless word) :
    (word ++ after).head? ≠ some ' ' := by
  cases word with
  | nil => exact absurd rfl filled
  | cons c word => exact fun same => spaceless c List.mem_cons_self (Option.some.inj same)

theorem spaceless_head (word : Text) (spaceless : Spaceless word) : word.head? ≠ some ' ' := fun same =>
  spaceless ' ' (List.mem_of_mem_head? same) rfl

theorem leading_spaces (text : Text) : ∃ k after, text = spaces k ++ after ∧ after.head? ≠ some ' ' := by
  induction text with
  | nil => exact ⟨0, [], rfl, fun same => by cases same⟩
  | cons c text ih =>
      by_cases space : c = ' '
      · obtain ⟨k, after, rfl, stops⟩ := ih
        exact ⟨k + 1, after, by rw [space]; rfl, stops⟩
      · exact ⟨0, c :: text, rfl, fun same => space (Option.some.inj same)⟩

def endsField (c : Char) : Bool := c == ' ' || c == '\n'

def field (text : Text) : Option Text :=
  let word := text.takeWhile (fun c => !endsField c)
  if word = [] then none else some word

theorem break_at (test : Char → Bool) (text : Text) :
    ∃ word tail, text = word ++ tail ∧ (∀ c ∈ word, test c = false) ∧ (tail = [] ∨ ∃ c after, tail = c :: after ∧ test c = true) := by
  induction text with
  | nil => exact ⟨[], [], rfl, fun _ member => absurd member List.not_mem_nil, Or.inl rfl⟩
  | cons c text ih =>
      cases stops : test c with
      | true => exact ⟨[], c :: text, rfl, fun _ member => absurd member List.not_mem_nil, Or.inr ⟨c, text, rfl, stops⟩⟩
      | false =>
          obtain ⟨word, tail, split, passes, stop⟩ := ih
          refine ⟨c :: word, tail, by rw [split, List.cons_append], fun x member => ?_, stop⟩
          obtain rfl | member := List.mem_cons.mp member
          · exact stops
          · exact passes x member

theorem take_while_break (test : Char → Bool) (word tail : Text) (passes : ∀ c ∈ word, test c = false)
    (stops : tail = [] ∨ ∃ c after, tail = c :: after ∧ test c = true) :
    (word ++ tail).takeWhile (fun c => !test c) = word := by
  rw [List.takeWhile_append_of_pos (fun c member => by rw [passes c member]; rfl)]
  obtain rfl | ⟨c, after, rfl, stop⟩ := stops
  · rw [List.takeWhile_nil, List.append_nil]
  · rw [List.takeWhile_cons, stop, Bool.not_true, if_neg Bool.false_ne_true, List.append_nil]

theorem field_break (word tail : Text) (passes : ∀ c ∈ word, endsField c = false)
    (stops : tail = [] ∨ ∃ c after, tail = c :: after ∧ endsField c = true) :
    field (word ++ tail) = if word = [] then none else some word := by
  rw [field, take_while_break endsField word tail passes stops]

section Scanning

variable (before after rest : Text)

theorem buffer_at_middle (c : Char) : (Buffer.mk (before ++ c :: after) rest).at before.length = some c := by
  have inside : before.length < (before ++ c :: after).length := by
    rw [List.length_append, List.length_cons]
    omega
  rw [Buffer.at, if_pos inside, List.getElem?_append_right (Nat.le_refl _), Nat.sub_self, List.getElem?_cons_zero]

theorem buffer_at_end : (Buffer.mk before rest).at before.length = some nul := by
  rw [Buffer.at, if_neg (Nat.lt_irrefl _), if_pos rfl]

theorem close_gap_middle (c : Char) :
    (Buffer.mk (before ++ c :: after) rest).closeGap before.length = some ⟨before ++ after, nul :: rest⟩ := by
  have inside : before.length < (before ++ c :: after).length := by
    rw [List.length_append, List.length_cons]
    omega
  rw [Buffer.closeGap, if_pos inside, List.eraseIdx_append_of_length_le (Nat.le_refl _), Nat.sub_self, List.eraseIdx_cons_zero]

theorem skip_spaces_run (k fuel : Nat) (enough : k < fuel) (stops : after.head? ≠ some ' ') :
    skipSpaces before.length fuel ⟨before ++ (spaces k ++ after), rest⟩ =
      some ⟨before ++ after, List.replicate k nul ++ rest⟩ := by
  induction k generalizing fuel rest with
  | zero =>
      obtain ⟨fuel, rfl⟩ := Nat.exists_eq_add_one.mpr enough
      rw [skipSpaces, spaces, List.replicate_zero, List.nil_append]
      cases after with
      | nil =>
          rw [List.append_nil, buffer_at_end]
          rfl
      | cons c after =>
          have other : (c == ' ') = false := beq_eq_false_iff_ne.mpr (fun same => stops (congrArg some same))
          simp only [buffer_at_middle, other, Bool.false_eq_true, if_false]
          rfl
  | succ k ih =>
      obtain ⟨fuel, rfl⟩ := Nat.exists_eq_add_one.mpr (Nat.zero_lt_of_lt enough)
      have step := ih (nul :: rest) fuel (by omega)
      rw [skipSpaces, spaces, List.replicate_succ, List.cons_append]
      simp only [buffer_at_middle, beq_self_eq_true, if_true, close_gap_middle, Option.bind_some]
      rw [← spaces, step, List.replicate_succ', List.append_assoc, List.singleton_append]

theorem scan_word (word : Text) (c : Char) (test : Char → Bool) (passes : ∀ x ∈ word, test x = false)
    (stops : test c = true) :
    scanFrom (before ++ (word ++ c :: after)) before.length test = some (before.length + word.length) := by
  have skipped : word.findIdx? test = none := List.findIdx?_eq_none_iff.mpr passes
  rw [scanFrom, List.drop_left, List.findIdx?_append, skipped, List.findIdx?_cons, stops]
  simp only [Option.none_or, if_true, Option.map_some, Nat.zero_add]
  rw [Nat.add_comm]

theorem scan_nothing (word : Text) (test : Char → Bool) (passes : ∀ x ∈ word, test x = false) :
    scanFrom (before ++ word) before.length test = none := by
  rw [scanFrom, List.drop_left, List.findIdx?_eq_none_iff.mpr passes, Option.map_none]

theorem substring_word (word : Text) (filled : word ≠ []) :
    substring (before ++ (word ++ after)) before.length (before.length + word.length) = some word := by
  have some := List.length_pos_iff.mpr filled
  rw [substring, if_neg, List.drop_left, Nat.add_sub_cancel_left, List.take_left]
  rw [List.length_append, List.length_append]
  omega

theorem substring_nothing (str : Text) (start stop : Nat) (order : stop ≤ start) : substring str start stop = none := by
  rw [substring, if_pos (Or.inl order)]

theorem substring_start (word : Text) :
    substring (before ++ (word ++ after)) before.length (before.length + word.length) = if word = [] then none else some word := by
  by_cases empty : word = []
  · rw [if_pos empty, substring_nothing]
    exact Nat.le_of_eq (by rw [empty, List.length_nil, Nat.add_zero])
  · rw [if_neg empty, substring_word before after word empty]

theorem last_part_field (c : Char) (third : Text) :
    lastPart ⟨before ++ c :: third, rest⟩ ' ' before.length = field third := by
  obtain ⟨word, tail, rfl, visible, stops⟩ := break_at endsField third
  have shift : before ++ c :: (word ++ tail) = (before ++ [c]) ++ (word ++ tail) := by
    rw [List.append_assoc, List.singleton_append]
  have width : before.length + 1 = (before ++ [c]).length := by rw [List.length_append, List.length_singleton]
  have test : (fun c => c == ' ' || c == '\n') = endsField := rfl
  rw [field_break word tail visible stops, lastPart, shift, width, test]
  obtain rfl | ⟨stop, after, rfl, stops⟩ := stops
  · have missing := scan_nothing (before ++ [c]) word endsField visible
    have part := substring_start (before ++ [c]) [] word
    rw [List.append_nil] at part ⊢
    rw [← List.length_append] at part
    rw [missing, Option.getD_none, ← width, if_pos (Nat.lt_succ_self _), width]
    exact part
  · have found := scan_word (before ++ [c]) after word stop endsField visible stops
    rw [found, Option.getD_some]
    dsimp only
    rw [if_neg (by omega), substring_start]

theorem skip_spaces_behind (k fuel : Nat) (c : Char) (enough : k < fuel) (stops : after.head? ≠ some ' ') :
    skipSpaces (before.length + 1) fuel ⟨before ++ c :: (spaces k ++ after), rest⟩ =
      some ⟨before ++ c :: after, List.replicate k nul ++ rest⟩ := by
  have skip := skip_spaces_run (before ++ [c]) after rest k fuel enough stops
  rw [List.length_append, List.length_singleton, List.append_assoc, List.append_assoc, List.singleton_append,
    List.singleton_append] at skip
  exact skip

theorem later_parts_last (second : Text) (word : Spaceless second) :
    laterParts ⟨before ++ ' ' :: second, rest⟩ ' ' before.length = some (none, field second) := by
  have missing := scan_nothing (before ++ [' ']) second (· == ' ') (spaceless_passes second word)
  rw [List.length_append, List.length_singleton, List.append_assoc, List.singleton_append] at missing
  have skip := skip_spaces_behind before second rest 0 ((before ++ ' ' :: second).length + 1) ' ' (Nat.succ_pos _)
    (spaceless_head _ word)
  rw [spaces, List.replicate_zero, List.nil_append, List.replicate_zero, List.nil_append] at skip
  rw [laterParts, missing, Option.getD_none, skip, Option.map_some, last_part_field, substring_nothing _ _ _ (Nat.le_succ _)]

theorem later_parts_both (d : Nat) (second third : Text) (filled : second ≠ []) (word : Spaceless second)
    (stops : third.head? ≠ some ' ') :
    laterParts ⟨before ++ ' ' :: (second ++ ' ' :: (spaces d ++ third)), rest⟩ ' ' before.length =
      some (some second, field third) := by
  have found := scan_word (before ++ [' ']) (spaces d ++ third) second ' ' (· == ' ')
    (spaceless_passes second word) rfl
  have part := substring_word (before ++ [' ']) (' ' :: (spaces d ++ third)) second filled
  have skip := skip_spaces_behind (before ++ ' ' :: second) third rest d
    ((before ++ ' ' :: (second ++ ' ' :: (spaces d ++ third))).length + 1) ' '
    (by simp only [spaces, List.length_append, List.length_cons, List.length_replicate]; omega) stops
  have last := last_part_field (before ++ ' ' :: second) (List.replicate d nul ++ rest) ' ' third
  have width : (before ++ ' ' :: second).length = before.length + 1 + second.length := by
    rw [List.length_append, List.length_cons]
    omega
  rw [List.length_append, List.length_singleton, List.append_assoc, List.singleton_append] at found part
  rw [width] at skip last
  rw [List.append_assoc, List.cons_append] at skip
  rw [laterParts, found, Option.getD_some, skip, Option.map_some, last, part]

end Scanning

section FirstWord

variable (a b : Nat) (word after rest : Text)

theorem split_first_word (filled : word ≠ []) (spaceless : Spaceless word) (stops : after.head? ≠ some ' ') :
    ∃ behind, splitByChar ⟨spaces a ++ (word ++ ' ' :: (spaces b ++ after)), rest⟩ ' ' =
      (laterParts ⟨word ++ ' ' :: after, behind⟩ ' ' word.length).map fun later => ⟨some word, later.1, later.2⟩ := by
  have trim := skip_spaces_run [] (word ++ ' ' :: (spaces b ++ after)) rest a
    ((spaces a ++ (word ++ ' ' :: (spaces b ++ after))).length + 1)
    (by rw [List.length_append, spaces, List.length_replicate]; omega) (word_head word _ filled spaceless)
  have found := scan_word [] (spaces b ++ after) word ' ' (· == ' ') (spaceless_passes word spaceless) rfl
  have part := substring_word [] (' ' :: (spaces b ++ after)) word filled
  have close := skip_spaces_behind word after (List.replicate a nul ++ rest) b
    ((word ++ ' ' :: (spaces b ++ after)).length + 1) ' '
    (by simp only [spaces, List.length_append, List.length_cons, List.length_replicate]; omega) stops
  rw [List.nil_append, List.length_nil] at trim found part
  rw [Nat.zero_add] at found part
  refine ⟨List.replicate b nul ++ (List.replicate a nul ++ rest), ?_⟩
  rw [splitByChar, trim, Option.bind_some]
  dsimp only [List.nil_append]
  rw [found, Option.getD_some, part, close, Option.bind_some]

theorem split_two_words (second : Text) (filled : word ≠ []) (spaceless : Spaceless word) (word2 : Spaceless second) :
    splitByChar ⟨spaces a ++ (word ++ ' ' :: (spaces b ++ second)), rest⟩ ' ' = some ⟨some word, none, field second⟩ := by
  obtain ⟨behind, split⟩ := split_first_word a b word second rest filled spaceless
    (spaceless_head _ word2)
  rw [split, later_parts_last word behind second word2, Option.map_some]

theorem split_three_words (d : Nat) (second third : Text) (filled : word ≠ []) (spaceless : Spaceless word)
    (filled2 : second ≠ []) (word2 : Spaceless second) (stops : third.head? ≠ some ' ') :
    splitByChar ⟨spaces a ++ (word ++ ' ' :: (spaces b ++ (second ++ ' ' :: (spaces d ++ third)))), rest⟩ ' ' =
      some ⟨some word, some second, field third⟩ := by
  obtain ⟨behind, split⟩ := split_first_word a b word (second ++ ' ' :: (spaces d ++ third)) rest filled spaceless
    (word_head second _ filled2 word2)
  rw [split, later_parts_both word behind d second third filled2 word2 stops, Option.map_some]

end FirstWord

theorem split_no_word (a : Nat) (word rest : Text) (spaceless : Spaceless word) (parts : Parts)
    (split : splitByChar ⟨spaces a ++ word, rest⟩ ' ' = some parts) : parts.part1 = none := by
  have trim := skip_spaces_run [] word rest a ((spaces a ++ word).length + 1)
    (by rw [List.length_append, spaces, List.length_replicate]; omega)
    (spaceless_head _ spaceless)
  have missing := scan_nothing [] word (· == ' ') (spaceless_passes word spaceless)
  rw [List.nil_append, List.length_nil] at trim missing
  rw [splitByChar, trim, Option.bind_some] at split
  dsimp only [List.nil_append] at split
  rw [missing, Option.getD_none] at split
  obtain ⟨closed, -, split⟩ := Option.bind_eq_some_iff.mp split
  obtain ⟨later, -, rfl⟩ := Option.map_eq_some_iff.mp split
  exact substring_nothing word 0 0 (Nat.le_refl 0)

-- A text by its words: what stands before the first space behind the leading
-- ones, before the next one, and from there on.
inductive Shape : Text → Prop where
  | one (a : Nat) (word : Text) (spaceless : Spaceless word) : Shape (spaces a ++ word)
  | two (a b : Nat) (word second : Text) (filled : word ≠ []) (spaceless : Spaceless word) (spaceless2 : Spaceless second) :
      Shape (spaces a ++ (word ++ ' ' :: (spaces b ++ second)))
  | more (a b d : Nat) (word second third : Text) (filled : word ≠ []) (spaceless : Spaceless word) (filled2 : second ≠ [])
      (spaceless2 : Spaceless second) (stops : third.head? ≠ some ' ') :
      Shape (spaces a ++ (word ++ ' ' :: (spaces b ++ (second ++ ' ' :: (spaces d ++ third)))))

theorem text_shape (text : Text) : Shape text := by
  have filled (word more : Text) (start : (word ++ ' ' :: more).head? ≠ some ' ') : word ≠ [] := by
    rintro rfl
    exact start rfl
  obtain ⟨a, trimmed, rfl, start⟩ := leading_spaces text
  obtain ⟨word, tail, rfl, passes, stops⟩ := break_at (· == ' ') trimmed
  have spaceless := passes_spaceless word passes
  obtain rfl | ⟨space, more, rfl, stop⟩ := stops
  · rw [List.append_nil]
    exact .one a word spaceless
  · rw [beq_iff_eq.mp stop] at start ⊢
    obtain ⟨b, after, rfl, head⟩ := leading_spaces more
    obtain ⟨second, tail2, rfl, passes2, stops2⟩ := break_at (· == ' ') after
    have spaceless2 := passes_spaceless second passes2
    obtain rfl | ⟨space2, more2, rfl, stop2⟩ := stops2
    · rw [List.append_nil]
      exact .two a b word second (filled word _ start) spaceless spaceless2
    · rw [beq_iff_eq.mp stop2] at head ⊢
      obtain ⟨d, third, rfl, head3⟩ := leading_spaces more2
      exact .more a b d word second third (filled word _ start) spaceless (filled second _ head) spaceless2 head3

end CpuEmulator.Assembler
