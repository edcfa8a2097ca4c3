import CpuEmulator.Assembler.Assembled

set_option autoImplicit false

namespace CpuEmulator.Assembler

open Library.Addresses

def commented (before comment back : Text) : Text := before ++ ';' :: (comment ++ back)

def column (before : Text) : Nat := before.foldl (fun n c => if c == '\n' then 0 else n + 1) 0

def spareAfter (spare : Nat) (before : Text) : Nat :=
  before.foldl (fun spare c => if c == '\n' || spare == 0 then maxLen - 2 else spare - 1) spare

section Room

theorem column_snoc (before : Text) (c : Char) : column (before ++ [c]) = if c == '\n' then 0 else column before + 1 := by
  rw [column, List.foldl_append]
  rfl

theorem spare_after_snoc (spare : Nat) (before : Text) (c : Char) : spareAfter spare (before ++ [c]) =
    if c == '\n' || spareAfter spare before == 0 then maxLen - 2 else spareAfter spare before - 1 := by
  rw [spareAfter, List.foldl_append]
  rfl

theorem spare_after_ends (spare : Nat) (c : Char) (before : Text) (ends : c = '\n' ∨ spare = 0) :
    spareAfter spare (c :: before) = spareAfter (maxLen - 2) before := by
  rw [spareAfter, List.foldl_cons, if_pos (by rw [Bool.or_eq_true, beq_iff_eq, beq_iff_eq]; exact ends), spareAfter]

theorem spare_after_goes_on (spare : Nat) (c : Char) (before : Text) (other : c ≠ '\n') :
    spareAfter (spare + 1) (c :: before) = spareAfter spare before := by
  rw [spareAfter, List.foldl_cons, beq_eq_false_iff_ne.mpr other,
    if_neg (by rw [Bool.false_or, beq_iff_eq]; exact Nat.succ_ne_zero spare), Nat.add_sub_cancel, spareAfter]

theorem spare_after_column (before : Text) : spareAfter (maxLen - 2) before = maxLen - 2 - column before % (maxLen - 1) := by
  have room : maxLen - 2 = 254 := rfl
  have size : maxLen - 1 = 255 := rfl
  rw [room, size]
  induction before using List.reverseRecOn with
  | nil => rfl
  | append_singleton before c ih =>
      rw [spare_after_snoc, column_snoc, ih, room]
      by_cases newline : c = '\n'
      · rw [newline]
        rfl
      · rw [beq_eq_false_iff_ne.mpr newline, Bool.false_or, if_neg Bool.false_ne_true]
        by_cases full : 254 - column before % 255 = 0
        · rw [if_pos (beq_iff_eq.mpr full)]
          omega
        · rw [if_neg (fun same => full (beq_iff_eq.mp same))]
          omega

theorem visible_comment (word comment : Text) : visible (word ++ ';' :: comment) = visible word := by
  have cut (before after : Text) : strip (before ++ ';' :: after) = strip before := by
    induction before with
    | nil => rfl
    | cons c before ih =>
        rw [List.cons_append, strip, strip, List.takeWhile_cons, List.takeWhile_cons, ← strip, ← strip, ih]
  by_cases ended : cString word = word
  · have unended : cString (word ++ ';' :: comment) = word ++ ';' :: cString comment := by
      rw [cString, List.takeWhile_append_of_pos (List.takeWhile_eq_self_iff.mp ended)]
      rfl
    rw [visible, visible, unended, ended, cut]
  · have shorter : cString (word ++ ';' :: comment) = cString word := by
      rw [cString, List.takeWhile_append, if_neg, cString]
      intro whole
      exact ended ((List.takeWhile_prefix _).eq_of_length whole)
    rw [visible, visible, shorter]

end Room

section Lines

variable (back : Text) (ends : back = [] ∨ ∃ after, back = '\n' :: after)

include ends

theorem reads_word (spare : Nat) (c : Char) (word : Text) (passes : '\n' ∉ c :: word) :
    ∃ more overflow, reads spare (c :: (word ++ back)) = (c :: more) :: (overflow ++ reads (maxLen - 2) (back.drop 1)) ∧
      (word.length ≤ spare → ∀ line ∈ overflow, line = ['\n']) := by
  induction word generalizing spare c with
  | nil =>
      have other : c ≠ '\n' := fun same => passes (same ▸ List.mem_cons_self)
      obtain rfl | ⟨after, rfl⟩ := ends
      · refine ⟨[], [], ?_, fun _ line member => absurd member List.not_mem_nil⟩
        cases spare with
        | zero => exact reads_ends 0 c [] (Or.inr rfl)
        | succ spare => exact reads_goes_on spare c [] other
      · cases spare with
        | zero =>
            refine ⟨[], [['\n']], ?_, fun _ line member => List.mem_singleton.mp member⟩
            rw [List.nil_append, reads_ends 0 c _ (Or.inr rfl), reads_ends _ '\n' after (Or.inl rfl)]
            rfl
        | succ spare =>
            refine ⟨['\n'], [], ?_, fun _ line member => absurd member List.not_mem_nil⟩
            rw [List.nil_append, reads_goes_on spare c _ other, reads_ends spare '\n' after (Or.inl rfl)]
            rfl
  | cons d word ih =>
      have other : c ≠ '\n' := fun same => passes (same ▸ List.mem_cons_self)
      have later : '\n' ∉ d :: word := fun member => passes (List.mem_cons_of_mem c member)
      cases spare with
      | zero =>
          obtain ⟨more, overflow, read, _⟩ := ih (maxLen - 2) d later
          refine ⟨[], (d :: more) :: overflow, ?_, fun fits => absurd fits (Nat.not_succ_le_zero _)⟩
          rw [reads_ends 0 c _ (Or.inr rfl), List.cons_append, read]
          rfl
      | succ spare =>
          obtain ⟨more, overflow, read, blank⟩ := ih spare d later
          refine ⟨d :: more, overflow, ?_, fun fits => blank (Nat.le_of_succ_le_succ fits)⟩
          rw [reads_goes_on spare c _ other, List.cons_append, read]

theorem reads_commented (spare : Nat) (before : Text) :
    ∃ front word, ∀ comment, '\n' ∉ comment → ∃ more overflow,
      reads spare (commented before comment back) =
        front ++ (word ++ ';' :: more) :: (overflow ++ reads (maxLen - 2) (back.drop 1)) ∧
      (comment.length ≤ spareAfter spare before → ∀ line ∈ overflow, line = ['\n']) := by
  induction before generalizing spare with
  | nil =>
      refine ⟨[], [], fun comment passes => ?_⟩
      exact reads_word back ends spare ';' comment (by
        rintro member
        obtain same | member := List.mem_cons.mp member
        · exact absurd same (by decide)
        · exact passes member)
  | cons c before ih =>
      by_cases stops : c = '\n' ∨ spare = 0
      · have room := spare_after_ends spare c before stops
        obtain ⟨front, word, read⟩ := ih (maxLen - 2)
        refine ⟨[c] :: front, word, fun comment passes => ?_⟩
        obtain ⟨more, overflow, read, blank⟩ := read comment passes
        refine ⟨more, overflow, ?_, room ▸ blank⟩
        rw [commented, List.cons_append, reads_ends spare c _ stops, ← commented, read]
        rfl
      · obtain ⟨other, some⟩ := not_or.mp stops
        obtain ⟨spare, rfl⟩ := Nat.exists_eq_succ_of_ne_zero some
        have room := spare_after_goes_on spare c before other
        obtain ⟨front, word, read⟩ := ih spare
        cases front with
        | nil =>
            refine ⟨[], c :: word, fun comment passes => ?_⟩
            obtain ⟨more, overflow, read, blank⟩ := read comment passes
            refine ⟨more, overflow, ?_, room ▸ blank⟩
            rw [commented, List.cons_append, reads_goes_on spare c _ other, ← commented, read]
            rfl
        | cons first front =>
            refine ⟨(c :: first) :: front, word, fun comment passes => ?_⟩
            obtain ⟨more, overflow, read, blank⟩ := read comment passes
            refine ⟨more, overflow, ?_, room ▸ blank⟩
            rw [commented, List.cons_append, reads_goes_on spare c _ other, ← commented, read]
            rfl

end Lines

section Meaning

variable (before back : Text) (ends : back = [] ∨ ∃ after, back = '\n' :: after)

theorem newline_blank (line : Text) (newline : line = ['\n']) : isEmpty (visible line) = true := by
  rw [newline]
  rfl

include ends

theorem statements_commented (spare : Nat) (comment other : Text) (passes : '\n' ∉ comment) (passes' : '\n' ∉ other)
    (fits : comment.length ≤ spareAfter spare before) (fits' : other.length ≤ spareAfter spare before) :
    statements (reads spare (commented before comment back)) = statements (reads spare (commented before other back)) := by
  obtain ⟨front, word, read⟩ := reads_commented back ends spare before
  have cut (comment : Text) (passes : '\n' ∉ comment) (fits : comment.length ≤ spareAfter spare before) :
      statements (reads spare (commented before comment back)) =
        statements front ++ (statements [word] ++ statements (reads (maxLen - 2) (back.drop 1))) := by
    obtain ⟨more, overflow, same, blank⟩ := read comment passes
    have nothing := statements_blank overflow (fun line member => newline_blank line (blank fits line member))
    have first : statements [word ++ ';' :: more] = statements [word] := by
      rw [statements, List.map_singleton, visible_comment, statements, List.map_singleton]
    rw [same, statements_append, ← List.singleton_append, statements_append, statements_append, nothing, first, List.nil_append]
  rw [cut comment passes fits, cut other passes' fits']

theorem commented_line_kept (spare : Nat) (comment line : Text) (passes : '\n' ∉ comment)
    (member : line ∈ reads spare (commented before [] back)) (filled : isEmpty (visible line) = false) :
    ∃ line' ∈ reads spare (commented before comment back), visible line' = visible line := by
  obtain ⟨front, word, read⟩ := reads_commented back ends spare before
  obtain ⟨more, overflow, same, blank⟩ := read [] List.not_mem_nil
  obtain ⟨more', overflow', same', _⟩ := read comment passes
  rw [same] at member
  rw [same']
  obtain inside | inside := List.mem_append.mp member
  · exact ⟨line, List.mem_append_left _ inside, rfl⟩
  · obtain rfl | inside := List.mem_cons.mp inside
    · exact ⟨word ++ ';' :: more', List.mem_append_right _ List.mem_cons_self, by rw [visible_comment, visible_comment]⟩
    · obtain inside | inside := List.mem_append.mp inside
      · rw [newline_blank line (blank (Nat.zero_le _) line inside)] at filled
        cases filled
      · exact ⟨line, List.mem_append_right _ (List.mem_cons_of_mem _ (List.mem_append_right _ inside)), rfl⟩

end Meaning

section Overflow

theorem reads_full (spare : Nat) (c : Char) (word rest : Text) (passes : '\n' ∉ c :: word) (full : word.length = spare) :
    reads spare (c :: (word ++ rest)) = (c :: word) :: reads (maxLen - 2) rest := by
  have other : c ≠ '\n' := fun same => passes (same ▸ List.mem_cons_self)
  induction word generalizing spare c with
  | nil =>
      rw [← full]
      exact reads_ends 0 c rest (Or.inr rfl)
  | cons d word ih =>
      have later : '\n' ∉ d :: word := fun member => passes (List.mem_cons_of_mem c member)
      rw [← full, List.length_cons, reads_goes_on _ c _ other, List.cons_append,
        ih word.length d later rfl (fun same => later (same ▸ List.mem_cons_self))]

theorem filler_passes (n : Nat) : '\n' ∉ List.replicate n 'x' := fun member =>
  absurd (List.eq_of_mem_replicate member) (by decide)

theorem comment_overflows (back : Text) (ends : back = [] ∨ ∃ after, back = '\n' :: after) (spare : Nat) (before : Text) :
    ∃ line ∈ (reads spare (commented before (List.replicate (spareAfter spare before + 1) 'x') back)).tail,
      line = ['x'] ∨ line = ['x', '\n'] := by
  induction before generalizing spare with
  | nil =>
      have passes : '\n' ∉ ';' :: List.replicate spare 'x' := fun member =>
        (List.mem_cons.mp member).elim (fun same => absurd same (by decide)) (filler_passes spare)
      rw [show spareAfter spare [] = spare from rfl, commented, List.nil_append, List.replicate_succ', List.append_assoc,
        reads_full spare ';' _ _ passes List.length_replicate, List.tail_cons]
      obtain rfl | ⟨after, rfl⟩ := ends
      · exact ⟨['x'], List.mem_cons_self, Or.inl rfl⟩
      · exact ⟨['x', '\n'], List.mem_cons_self, Or.inr rfl⟩
  | cons c before ih =>
      rw [commented, List.cons_append]
      by_cases stops : c = '\n' ∨ spare = 0
      · obtain ⟨line, member, alone⟩ := ih (maxLen - 2)
        rw [reads_ends spare c _ stops, List.tail_cons, spare_after_ends spare c before stops]
        exact ⟨line, List.mem_of_mem_tail member, alone⟩
      · obtain ⟨other, some⟩ := not_or.mp stops
        obtain ⟨spare, rfl⟩ := Nat.exists_eq_succ_of_ne_zero some
        obtain ⟨line, member, alone⟩ := ih spare
        rw [reads_goes_on spare c _ other, spare_after_goes_on spare c before other]
        refine ⟨line, ?_, alone⟩
        rw [commented] at member
        cases read : reads spare (before ++ ';' :: (List.replicate (spareAfter spare before + 1) 'x' ++ back)) with
        | nil =>
            rw [read] at member
            exact absurd member List.not_mem_nil
        | cons first lines =>
            rw [read] at member
            exact member

end Overflow

-- Comments of up to length characters mean nothing exactly when the buffer that
-- has the semicolon has room for them.
theorem comments_meaningless_iff (before back : Text) (length : Nat) (ends : back = [] ∨ ∃ after, back = '\n' :: after)
    (size : before.length + length + back.length + 1 < 2 ^ 63) :
    (∀ (source other : SourceFile) (old new : Text), '\n' ∉ old → '\n' ∉ new → old.length ≤ length → new.length ≤ length →
        source.bytes = commented before old back → other.bytes = commented before new back → SameProgram source other) ↔
      ((∀ line ∈ reads (maxLen - 2) (commented before [] back), kindOf line = .instruction → HasOperand line) →
        column before % (maxLen - 1) + length < maxLen - 1) := by
  have room := spare_after_column before
  have short : column before % (maxLen - 1) < maxLen - 1 := Nat.mod_lt _ (by decide)
  constructor
  · intro same operands
    by_contra long
    have beyond : spareAfter (maxLen - 2) before + 1 ≤ length := by omega
    have file (comment : Text) (fits : comment.length ≤ length) : (commented before comment back).length < 2 ^ 63 := by
      rw [commented, List.length_append, List.length_cons, List.length_append]
      omega
    have passes := filler_passes (spareAfter (maxLen - 2) before + 1)
    have fits : (List.replicate (spareAfter (maxLen - 2) before + 1) 'x').length ≤ length := by
      rw [List.length_replicate]
      exact beyond
    have both := (same_program_reads _ _).mp (same ⟨_, file [] (Nat.zero_le _)⟩ ⟨_, file _ fits⟩ [] _ List.not_mem_nil passes
      (Nat.zero_le _) fits rfl rfl)
    have made := (assembled_iff_operands _ (reads_one_line _)).mpr operands
    dsimp only at both
    rw [both, assembled_iff_operands _ (reads_one_line _)] at made
    obtain ⟨line, member, alone⟩ := comment_overflows back ends (maxLen - 2) before
    have operand := made line (List.mem_of_mem_tail member)
    obtain rfl | rfl := alone
    · exact absurd (operand rfl) (by decide)
    · exact absurd (operand rfl) (by decide)
  · intro condition source other old new passes passes' fits fits' bytes bytes'
    rw [same_program_reads, bytes, bytes']
    by_cases operands : ∀ line ∈ reads (maxLen - 2) (commented before [] back), kindOf line = .instruction → HasOperand line
    · have within := condition operands
      rw [← assembled_statements, ← assembled_statements (reads _ (commented before new back)),
        statements_commented before back ends _ old new passes passes' (by omega) (by omega)]
    · have fails (comment : Text) (passes : '\n' ∉ comment) :
          assembled (reads (maxLen - 2) (commented before comment back)) = none := by
        rw [← Option.not_isSome_iff_eq_none, assembled_iff_operands _ (reads_one_line _)]
        intro parsed
        refine operands fun line member instruction => ?_
        have filled := ((kind_instruction_iff line).mp instruction).2.2
        obtain ⟨line', member', same⟩ := commented_line_kept before back ends _ comment line passes member filled
        have operand := parsed line' member' (by rw [← kind_visible, same, kind_visible, instruction])
        rw [HasOperand, same] at operand
        exact operand
      rw [fails old passes, fails new passes']

theorem comments_meaningless_iff_alone :
    (∀ (source other : SourceFile) (old new : Text), '\n' ∉ old → '\n' ∉ new → old.length ≤ 200 → new.length ≤ 200 →
        source.bytes = commented [] old ['\n'] → other.bytes = commented [] new ['\n'] → SameProgram source other) ↔
      ((∀ line ∈ reads (maxLen - 2) (commented [] [] ['\n']), kindOf line = .instruction → HasOperand line) →
        column [] % (maxLen - 1) + 200 < maxLen - 1) :=
  comments_meaningless_iff [] ['\n'] 200 (Or.inr ⟨[], rfl⟩) (by decide)

def longComment : Text := List.replicate 254 'x' ++ ['A', 'D', 'D', ' ', 'R', '0', ',', 'R', '1']

theorem long_comment_assembled : ¬ ∀ (source other : SourceFile) (before old new back : Text),
    (back = [] ∨ ∃ after, back = '\n' :: after) → '\n' ∉ old → '\n' ∉ new →
    source.bytes = commented before old back → other.bytes = commented before new back → SameProgram source other := by
  intro claimed
  have passes : '\n' ∉ longComment := fun member => (List.mem_append.mp member).elim (filler_passes 254) (by decide)
  have same := claimed ⟨commented [] [] [], by decide⟩ ⟨commented [] longComment [], by decide +kernel⟩ [] [] longComment []
    (Or.inl rfl) List.not_mem_nil passes rfl rfl
  have short : assembled (reads (maxLen - 2) (commented [] [] [])) = some [haltInstr] := by decide +kernel
  have long : assembled (reads (maxLen - 2) (commented [] longComment [])) =
      some [⟨1, 0, Opcode.add.code, Mode.register.code⟩, haltInstr] := by decide +kernel
  rw [same_program_reads] at same
  dsimp only at same
  rw [short, long] at same
  exact absurd same (by decide)

end CpuEmulator.Assembler
