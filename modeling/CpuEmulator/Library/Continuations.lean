import CpuEmulator.Library.Addresses

set_option autoImplicit false

namespace CpuEmulator.Library.Addresses

variable {κ ι ο : Type} [DecidableEq κ]

-- Where control goes on in a listing: what follows the last definition of a key.
def after (kind : ι → Kind κ) (key : κ) : List ι → Option (List ι)
  | [] => none
  | line :: lines => (after kind key lines).or (if kind line = .label key then some lines else none)

section Continuations

variable (kind : ι → Kind κ)

theorem after_none (key : κ) (lines : List ι) (missing : after kind key lines = none) :
    ∀ line ∈ lines, kind line ≠ .label key := by
  induction lines with
  | nil => exact fun line member => absurd member List.not_mem_nil
  | cons head lines ih =>
      rw [after, Option.or_eq_none_iff] at missing
      intro line member same
      obtain rfl | member := List.mem_cons.mp member
      · rw [if_pos same] at missing
        cases missing.2
      · exact ih missing.1 line member same

theorem after_cases (key : κ) (lines rest : List ι) (found : after kind key lines = some rest) :
    ∃ before line, lines = before ++ line :: rest ∧ kind line = .label key ∧ ∀ later ∈ rest, kind later ≠ .label key := by
  induction lines with
  | nil => cases found
  | cons head lines ih =>
      rw [after] at found
      cases again : after kind key lines with
      | some other =>
          rw [again, Option.some_or] at found
          obtain rfl := Option.some.inj found
          obtain ⟨before, line, rfl, defines, last⟩ := ih again
          exact ⟨head :: before, line, rfl, defines, last⟩
      | none =>
          rw [again, Option.none_or] at found
          split at found
          · rename_i defines
            obtain rfl := Option.some.inj found
            exact ⟨[], head, rfl, defines, after_none kind key lines again⟩
          · cases found

theorem after_suffix (key : κ) (lines rest : List ι) (found : after kind key lines = some rest) : rest <:+ lines := by
  obtain ⟨before, line, rfl, _⟩ := after_cases kind key lines rest found
  exact ⟨before ++ [line], by rw [List.append_assoc, List.singleton_append]⟩

theorem after_defined (key : κ) (lines : List ι) (defined : ∃ line ∈ lines, kind line = .label key) :
    ∃ rest, after kind key lines = some rest := by
  cases found : after kind key lines with
  | some rest => exact ⟨rest, rfl⟩
  | none =>
      obtain ⟨line, member, same⟩ := defined
      exact absurd same (after_none kind key lines found line member)

theorem after_append (key : κ) (front back : List ι) :
    after kind key (front ++ back) = (after kind key back).or ((after kind key front).map (· ++ back)) := by
  induction front with
  | nil =>
      rw [List.nil_append, after, Option.map_none]
      exact (Option.or_none).symm
  | cons line front ih =>
      rw [List.cons_append, after, ih, after]
      cases after kind key back with
      | some rest => rfl
      | none =>
          cases after kind key front with
          | some rest => rfl
          | none =>
              rw [Option.none_or, Option.map_none, Option.none_or, Option.none_or, Option.none_or]
              split <;> rfl

theorem address_after (key : κ) (lines rest : List ι) (found : after kind key lines = some rest) :
    (resolve kind lines).address key = some ((emitted kind lines).length - (emitted kind rest).length) := by
  obtain ⟨before, line, rfl, defines, last⟩ := after_cases kind key lines rest found
  have label : kind line ≠ .instruction := fun other => by
    rw [defines] at other
    cases other
  rw [address_last kind before rest line key defines last, emitted_append, emitted_other kind line rest label,
    List.length_append, Nat.add_sub_cancel]

end Continuations

-- What the passes make of a listing depends on what its lines stand for, and not
-- on the blank ones.
def marks (kind : ι → Kind κ) (lines : List ι) : List (Kind κ) := (lines.map kind).filter (· ≠ .blank)

theorem marks_cons (kind : ι → Kind κ) (line : ι) (lines : List ι) :
    marks kind (line :: lines) = if kind line = .blank then marks kind lines else kind line :: marks kind lines := by
  rw [marks, List.map_cons, List.filter_cons]
  by_cases blank : kind line = .blank
  · rw [if_pos blank, if_neg (by simpa using blank), marks]
  · rw [if_neg blank, if_pos (by simpa using blank), marks]

theorem resolve_marks (kind : ι → Kind κ) (lines : List ι) : resolve kind lines = resolve id (marks kind lines) := by
  have run (table : Table κ) : lines.foldl (assign kind) table = (marks kind lines).foldl (assign id) table := by
    induction lines generalizing table with
    | nil => rfl
    | cons line lines ih =>
        rw [List.foldl_cons, ih, marks_cons]
        by_cases blank : kind line = .blank
        · rw [if_pos blank, assign_blank kind table line blank]
        · rw [if_neg blank, List.foldl_cons]
          rfl
  exact run _

theorem resolve_congr (kind : ι → Kind κ) (other : ο → Kind κ) (lines : List ι) (others : List ο)
    (same : marks kind lines = marks other others) : resolve kind lines = resolve other others := by
  rw [resolve_marks, same, ← resolve_marks]

end CpuEmulator.Library.Addresses
