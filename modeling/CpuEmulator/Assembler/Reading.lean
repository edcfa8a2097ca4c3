import CpuEmulator.Assembler.ParseAssembly
import CpuEmulator.Assembler.Split

set_option autoImplicit false

namespace CpuEmulator.Assembler

def sourceLines : Text → List Text
  | [] => []
  | c :: unread =>
      if c == '\n' then [c] :: sourceLines unread
      else
        match sourceLines unread with
        | [] => [[c]]
        | line :: lines => (c :: line) :: lines

def OneLine (line : Text) : Prop := ∀ c ∈ line.dropLast, c ≠ '\n'

instance (line : Text) : Decidable (OneLine line) := List.decidableBAll (fun c => c ≠ '\n') line.dropLast

section Calls

theorem one_line_cons (c : Char) (line : Text) (other : c ≠ '\n') (one : OneLine line) : OneLine (c :: line) := by
  cases line with
  | nil => exact fun _ member => absurd member List.not_mem_nil
  | cons next line =>
      intro x member
      rw [List.dropLast_cons_of_ne_nil (List.cons_ne_nil _ _)] at member
      obtain rfl | member := List.mem_cons.mp member
      · exact other
      · exact one x member

theorem fgets_newline (room : Nat) (unread : Text) : fgets (room + 1) ('\n' :: unread) = ⟨['\n'], unread, false⟩ := rfl

theorem fgets_other (room : Nat) (c : Char) (unread : Text) (other : (c == '\n') = false) :
    fgets (room + 1) (c :: unread) = { fgets room unread with line := c :: (fgets room unread).line } := by
  rw [fgets, other, if_neg Bool.false_ne_true]

theorem fgets_one_line (room : Nat) (unread : Text) : OneLine (fgets room unread).line := by
  induction room generalizing unread with
  | zero => exact fun _ member => absurd member List.not_mem_nil
  | succ room ih =>
      cases unread with
      | nil => exact fun _ member => absurd member List.not_mem_nil
      | cons c unread =>
          by_cases newline : c = '\n'
          · rw [newline, fgets_newline]
            exact fun _ member => absurd member List.not_mem_nil
          · rw [fgets_other room c unread (beq_eq_false_iff_ne.mpr newline)]
            exact one_line_cons c _ newline (ih unread)

theorem fgets_shrinks (room : Nat) (unread : Text) : (fgets room unread).unread.length ≤ unread.length := by
  induction room generalizing unread with
  | zero => exact Nat.le_refl _
  | succ room ih =>
      cases unread with
      | nil => exact Nat.le_refl _
      | cons c unread =>
          by_cases newline : c = '\n'
          · rw [newline, fgets_newline]
            exact Nat.le_succ _
          · rw [fgets_other room c unread (beq_eq_false_iff_ne.mpr newline)]
            exact Nat.le_succ_of_le (ih unread)

theorem fgets_progress (room : Nat) (unread : Text) (inside : (fgets (room + 1) unread).eof = false) :
    (fgets (room + 1) unread).unread.length < unread.length := by
  cases unread with
  | nil => cases inside
  | cons c unread =>
      by_cases newline : c = '\n'
      · rw [newline, fgets_newline]
        exact Nat.lt_succ_self _
      · rw [fgets_other room c unread (beq_eq_false_iff_ne.mpr newline)]
        exact Nat.lt_succ_of_le (fgets_shrinks room unread)

theorem source_lines_line (word after : Text) (passes : ∀ c ∈ word, (c == '\n') = false) :
    sourceLines (word ++ '\n' :: after) = (word ++ ['\n']) :: sourceLines after := by
  induction word with
  | nil => rfl
  | cons c word ih =>
      rw [List.cons_append, sourceLines, passes c List.mem_cons_self, if_neg Bool.false_ne_true,
        ih (fun x member => passes x (List.mem_cons_of_mem _ member))]
      rfl

theorem source_lines_last (word : Text) (passes : ∀ c ∈ word, (c == '\n') = false) (filled : word ≠ []) :
    sourceLines word = [word] := by
  induction word with
  | nil => exact absurd rfl filled
  | cons c word ih =>
      rw [sourceLines, passes c List.mem_cons_self, if_neg Bool.false_ne_true]
      cases word with
      | nil => rfl
      | cons next word => rw [ih (fun x member => passes x (List.mem_cons_of_mem _ member)) (List.cons_ne_nil _ _)]

end Calls

section Loops

theorem turns_end (fuel : Nat) (unread : Text) (enough : unread.length < fuel) :
    ∃ lines, turns fuel unread = .ok lines ∧ lines ≠ [] ∧ lines.length ≤ unread.length + 1 ∧ ∀ line ∈ lines, OneLine line := by
  induction fuel generalizing unread with
  | zero => exact absurd enough (Nat.not_lt_zero _)
  | succ fuel ih =>
      have one := fgets_one_line (maxLen - 1) unread
      rw [turns]
      cases ended : (fgets (maxLen - 1) unread).eof with
      | true =>
          refine ⟨[(fgets (maxLen - 1) unread).line], rfl, List.cons_ne_nil _ _, Nat.succ_le_succ (Nat.zero_le _), fun line member => ?_⟩
          rw [List.mem_singleton.mp member]
          exact one
      | false =>
          have less := fgets_progress 254 unread ended
          obtain ⟨lines, rest, _, bound, each⟩ := ih (fgets (maxLen - 1) unread).unread (Nat.lt_of_lt_of_le less (Nat.le_of_lt_succ enough))
          refine ⟨(fgets (maxLen - 1) unread).line :: lines, by rw [rest]; rfl, List.cons_ne_nil _ _, ?_, fun line member => ?_⟩
          · rw [List.length_cons]
            exact Nat.succ_le_succ (Nat.le_trans bound less)
          · obtain rfl | member := List.mem_cons.mp member
            · exact one
            · exact each line member

end Loops

-- What fgets delivers of a text when its buffer has room for spare characters
-- behind the next one; every later buffer starts empty.
def reads : Nat → Text → List Text
  | _, [] => []
  | spare, c :: unread =>
      if c == '\n' || spare == 0 then [c] :: reads (maxLen - 2) unread
      else
        match reads (spare - 1) unread with
        | [] => [[c]]
        | line :: lines => (c :: line) :: lines

section Buffers

theorem reads_ends (spare : Nat) (c : Char) (unread : Text) (ends : c = '\n' ∨ spare = 0) :
    reads spare (c :: unread) = [c] :: reads (maxLen - 2) unread := by
  rw [reads, if_pos (by rw [Bool.or_eq_true, beq_iff_eq, beq_iff_eq]; exact ends)]

theorem reads_goes_on (spare : Nat) (c : Char) (unread : Text) (other : c ≠ '\n') :
    reads (spare + 1) (c :: unread) =
      match reads spare unread with
      | [] => [[c]]
      | line :: lines => (c :: line) :: lines := by
  rw [reads, beq_eq_false_iff_ne.mpr other, if_neg (by rw [Bool.false_or, beq_iff_eq]; exact Nat.succ_ne_zero spare),
    Nat.add_sub_cancel]

theorem fgets_reads (spare : Nat) (unread : Text) (filled : unread ≠ []) :
    reads spare unread = (fgets (spare + 1) unread).line :: reads (maxLen - 2) (fgets (spare + 1) unread).unread := by
  induction unread generalizing spare with
  | nil => exact absurd rfl filled
  | cons c unread ih =>
      by_cases newline : c = '\n'
      · rw [reads_ends spare c unread (Or.inl newline), newline, fgets_newline]
      · rw [fgets_other spare c unread (beq_eq_false_iff_ne.mpr newline)]
        cases spare with
        | zero => exact reads_ends 0 c unread (Or.inr rfl)
        | succ spare =>
            rw [reads_goes_on spare c unread newline]
            cases unread with
            | nil => rfl
            | cons next unread => rw [ih spare (List.cons_ne_nil _ _)]

theorem fgets_eof (room : Nat) (unread : Text) (ended : (fgets room unread).eof = true) : (fgets room unread).unread = [] := by
  induction room generalizing unread with
  | zero => cases ended
  | succ room ih =>
      cases unread with
      | nil => rfl
      | cons c unread =>
          by_cases newline : c = '\n'
          · rw [newline, fgets_newline] at ended
            cases ended
          · rw [fgets_other room c unread (beq_eq_false_iff_ne.mpr newline)] at ended ⊢
            exact ih unread ended

theorem turns_reads (fuel : Nat) (unread : Text) (enough : unread.length < fuel) :
    ∃ idle, turns fuel unread = .ok (reads (maxLen - 2) unread ++ idle) ∧ ∀ line ∈ idle, line = [] := by
  induction fuel generalizing unread with
  | zero => exact absurd enough (Nat.not_lt_zero _)
  | succ fuel ih =>
      rw [turns]
      by_cases filled : unread = []
      · rw [filled]
        exact ⟨[[]], rfl, fun line member => List.mem_singleton.mp member⟩
      · rw [fgets_reads (maxLen - 2) unread filled, show maxLen - 2 + 1 = maxLen - 1 from rfl]
        cases ended : (fgets (maxLen - 1) unread).eof with
        | true =>
            rw [fgets_eof (maxLen - 1) unread ended]
            exact ⟨[], rfl, fun line member => absurd member List.not_mem_nil⟩
        | false =>
            have less := fgets_progress 254 unread ended
            obtain ⟨idle, rest, empty⟩ := ih (fgets (maxLen - 1) unread).unread (Nat.lt_of_lt_of_le less (Nat.le_of_lt_succ enough))
            refine ⟨idle, ?_, empty⟩
            rw [if_neg Bool.false_ne_true, rest]
            rfl

theorem source_lines_cons (c : Char) (unread : Text) : ∃ more lines, sourceLines (c :: unread) = (c :: more) :: lines := by
  rw [sourceLines]
  split
  · exact ⟨[], sourceLines unread, rfl⟩
  · cases sourceLines unread with
    | nil => exact ⟨[], [], rfl⟩
    | cons line lines => exact ⟨line, lines, rfl⟩

theorem reads_source_lines (spare : Nat) (unread : Text) (first : ∀ line ∈ (sourceLines unread).head?, line.length ≤ spare + 1)
    (later : ∀ line ∈ (sourceLines unread).tail, line.length < maxLen) : reads spare unread = sourceLines unread := by
  induction unread generalizing spare with
  | nil => rfl
  | cons c unread ih =>
      by_cases newline : c = '\n'
      · have lines : sourceLines (c :: unread) = [c] :: sourceLines unread := by
          rw [newline]
          rfl
        rw [lines, List.tail_cons] at later
        rw [lines, reads_ends spare c unread (Or.inl newline),
          ih (maxLen - 2) (fun line member => Nat.le_of_lt_succ (later line (List.mem_of_mem_head? member)))
            (fun line member => later line (List.mem_of_mem_tail member))]
      · rw [sourceLines, beq_eq_false_iff_ne.mpr newline, if_neg Bool.false_ne_true] at first later ⊢
        cases unread with
        | nil =>
            cases spare with
            | zero => exact reads_ends 0 c [] (Or.inr rfl)
            | succ spare => exact reads_goes_on spare c [] newline
        | cons next unread =>
            obtain ⟨more, lines, split⟩ := source_lines_cons next unread
            rw [split] at first later ih ⊢
            have fits := first _ rfl
            cases spare with
            | zero => exact absurd (Nat.le_of_succ_le_succ fits) (Nat.not_succ_le_zero _)
            | succ spare =>
                rw [reads_goes_on spare c _ newline, ih spare (fun line same => ?_) later]
                cases same
                exact Nat.le_of_succ_le_succ fits

theorem reads_short (unread : Text) (short : ∀ line ∈ sourceLines unread, line.length < maxLen) :
    reads (maxLen - 2) unread = sourceLines unread :=
  reads_source_lines (maxLen - 2) unread (fun line member => Nat.le_of_lt_succ (short line (List.mem_of_mem_head? member)))
    (fun line member => short line (List.mem_of_mem_tail member))

theorem turns_source_lines (fuel : Nat) (unread : Text) (enough : unread.length < fuel)
    (short : ∀ line ∈ sourceLines unread, line.length < maxLen) :
    ∃ idle, turns fuel unread = .ok (sourceLines unread ++ idle) ∧ ∀ line ∈ idle, line = [] := by
  rw [← reads_short unread short]
  exact turns_reads fuel unread enough

end Buffers

end CpuEmulator.Assembler
