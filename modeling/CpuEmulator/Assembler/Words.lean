import CpuEmulator.Assembler.Branches

set_option autoImplicit false

namespace CpuEmulator.Assembler

section Words

theorem spaces_append (n a : Nat) (text : Text) : spaces n ++ (spaces a ++ text) = spaces (n + a) ++ text := by
  rw [← List.append_assoc, spaces, spaces, List.replicate_append_replicate, spaces]

theorem split_parts (text : Text) :
    (∀ n rest parts, splitByChar ⟨spaces n ++ text, rest⟩ ' ' = some parts → parts.part1 = none) ∨
      ∃ word part2 part3, ∀ n rest, splitByChar ⟨spaces n ++ text, rest⟩ ' ' = some ⟨some word, part2, part3⟩ := by
  cases text_shape text with
  | one a word spaceless =>
      refine Or.inl fun n rest parts split => ?_
      rw [spaces_append] at split
      exact split_no_word (n + a) word rest spaceless parts split
  | two a b word second filled spaceless spaceless2 =>
      refine Or.inr ⟨word, none, field second, fun n rest => ?_⟩
      rw [spaces_append]
      exact split_two_words (n + a) b word rest second filled spaceless spaceless2
  | more a b d word second third filled spaceless filled2 spaceless2 stops =>
      refine Or.inr ⟨word, some second, field third, fun n rest => ?_⟩
      rw [spaces_append]
      exact split_three_words (n + a) b word rest d second third filled spaceless filled2 spaceless2 stops

theorem replace_comma_spaces (n : Nat) (text rest : Text) :
    replaceComma ⟨spaces n ++ text, rest⟩ = ⟨spaces n ++ (replaceComma ⟨text, []⟩).text, rest⟩ := by
  obtain ⟨word, tail, rfl, passes, stops⟩ := break_at (· == ',') text
  have missing : ',' ∉ word := fun member => Bool.false_ne_true ((passes ',' member).symm.trans rfl)
  have first : ',' ∉ spaces n ++ word := fun member =>
    (List.mem_append.mp member).elim (not_mem_spaces ',' n (by decide)) missing
  obtain rfl | ⟨comma, back, rfl, stop⟩ := stops
  · rw [List.append_nil, replace_comma_nowhere _ rest first, replace_comma_nowhere _ [] missing]
  · rw [beq_iff_eq.mp stop, ← List.append_assoc, replace_comma_at _ back rest first, replace_comma_at _ back [] missing,
      List.append_assoc]

theorem parse_without_word (line : Buffer) (labels : Labels)
    (missing : ∀ parts, splitByChar (replaceComma line) ' ' = some parts → parts.part1 = none) : parseLine line labels = none := by
  rw [parseLine]
  cases split : splitByChar (replaceComma line) ' ' with
  | none => rfl
  | some parts => rw [Option.bind_some, missing parts split, Option.bind_none]

theorem parse_line_spaces (n : Nat) (text rest other : Text) (labels : Labels) :
    parseLine ⟨spaces n ++ text, rest⟩ labels = parseLine ⟨text, other⟩ labels := by
  have plain : (⟨text, other⟩ : Buffer) = ⟨spaces 0 ++ text, other⟩ := rfl
  obtain missing | ⟨word, part2, part3, split⟩ := split_parts (replaceComma ⟨text, []⟩).text
  · rw [plain, parse_without_word _ labels (fun parts found => missing n rest parts (by rw [← replace_comma_spaces, found])),
      parse_without_word _ labels (fun parts found => missing 0 other parts (by rw [← replace_comma_spaces, found]))]
  · rw [plain, parseLine, parseLine, replace_comma_spaces, replace_comma_spaces, split, split]

theorem parse_line_behind (text rest other : Text) (labels : Labels) :
    parseLine ⟨text, rest⟩ labels = parseLine ⟨text, other⟩ labels := parse_line_spaces 0 text rest other labels

end Words

section Survival

theorem parse_with_operation (line : Buffer) (labels : Labels) (operation : Text) (part2 part3 : Option Text)
    (split : splitByChar (replaceComma line) ' ' = some ⟨some operation, part2, part3⟩) :
    (parseLine line labels).isSome = (part2.isSome || part3.isSome) := by
  rw [parseLine, split]
  dsimp only [Option.bind_some]
  cases operationOf operation with
  | none => rw [parseOperands, Option.isSome_map, Option.isSome_or, Bool.or_comm]
  | some op =>
      dsimp only
      split
      · rw [parseBranch, Option.isSome_map, Option.isSome_or]
      · rw [parseOperands, Option.isSome_map, Option.isSome_or, Bool.or_comm]

theorem field_is_some (text : Text) : (field text).isSome ↔ text.takeWhile (fun c => !endsField c) ≠ [] := by
  rw [field]
  split
  · rename_i empty
    exact iff_of_false Bool.false_ne_true (fun filled => filled empty)
  · rename_i filled
    exact iff_of_true rfl filled

theorem operand_of_word (a : Nat) (word : Text) (spaceless : Spaceless word) : operandText (spaces a ++ word) = [] := by
  have dropped : word.dropWhile (fun c => !(c == ' ')) = [] :=
    List.dropWhile_eq_nil_iff.mpr (fun c member => by rw [spaceless_passes word spaceless c member]; rfl)
  rw [operandText, drop_spaces a word (spaceless_head _ spaceless), dropped]
  rfl

def HasOperand (line : Text) : Prop := operandText (replaceComma ⟨visible line, []⟩).text ≠ []

instance (line : Text) : Decidable (HasOperand line) := inferInstanceAs (Decidable (_ ≠ _))

theorem parse_text_survives (written rest : Text) (labels : Labels) (one : OneLine written) :
    (parseLine ⟨written, rest⟩ labels).isSome ↔ operandText (replaceComma ⟨written, []⟩).text ≠ [] := by
  have replaced := one_line_replace written [] one
  have comma := replace_comma_rest written rest
  generalize (replaceComma ⟨written, []⟩).text = text at replaced comma ⊢
  cases text_shape text with
  | one a word spaceless =>
      rw [operand_of_word a word spaceless, parse_without_word _ labels fun parts split => ?_]
      · exact iff_of_false Bool.false_ne_true (fun filled => filled rfl)
      · rw [comma] at split
        exact split_no_word a word rest spaceless parts split
  | two a b word second filled spaceless spaceless2 =>
      have split := split_two_words a b word rest second filled spaceless spaceless2
      rw [← comma] at split
      rw [parse_with_operation _ labels word _ _ split, Option.isSome_none, Bool.false_or, field_is_some,
        second_text a b word second filled spaceless (spaceless_head _ spaceless2)]
  | more a b d word second third filled spaceless filled2 spaceless2 stops =>
      have split := split_three_words a b word rest d second third filled spaceless filled2 spaceless2 stops
      rw [← comma] at split
      rw [parse_with_operation _ labels word _ _ split,
        middle_text a b word second _ filled spaceless filled2 spaceless2 replaced]
      exact iff_of_true rfl filled2

theorem parse_line_survives_iff (line rest : Text) (labels : Labels) (one : OneLine line) :
    (parseLine ⟨visible line, rest⟩ labels).isSome ↔ HasOperand line :=
  parse_text_survives (visible line) rest labels (visible_one_line line one)

theorem parse_line_survives_iff_add :
    (parseLine ⟨visible ['A', 'D', 'D', ' ', 'R', '0', '\n'], []⟩ hashMakeTable).isSome ↔ HasOperand ['A', 'D', 'D', ' ', 'R', '0', '\n'] :=
  parse_line_survives_iff ['A', 'D', 'D', ' ', 'R', '0', '\n'] [] hashMakeTable (by decide)

-- strcmp gets a NULL operation.
theorem lone_word_faults :
    ¬ ∀ (line rest : Text) (labels : Labels), line.length < maxLen → hasText line = true → ':' ∉ visible line →
      (parseLine ⟨visible line, rest⟩ labels).isSome := by
  intro claimed
  exact absurd (claimed ['H', 'A', 'L', 'T', '\n'] [] hashMakeTable (by decide) rfl (by decide)) (by decide)

end Survival

end CpuEmulator.Assembler
