import CpuEmulator.Library.Lru

set_option autoImplicit false

namespace CpuEmulator.Library.Lru

section Stack

variable {α : Type} [DecidableEq α]

def since (line : α) (stream : List α) : List α := stream.reverse.takeWhile (fun other => other != line)

-- The recency list of a cache that never has to give up a line.
def stackOf (stream : List α) : List α := stream.foldl (fun stack line => line :: stack.erase line) []

theorem since_snoc (line last : α) (stream : List α) :
    since line (stream ++ [last]) = if last = line then [] else last :: since line stream := by
  rw [since, List.reverse_append, List.reverse_singleton, List.singleton_append, List.takeWhile_cons]
  by_cases same : last = line
  · simp [same]
  · simp [same, since]

theorem since_filter (line : α) (keep : α → Bool) (kept : keep line = true) (stream : List α) :
    since line (stream.filter keep) = (since line stream).filter keep := by
  induction stream using List.reverseRecOn with
  | nil => rfl
  | append_singleton stream last ih =>
      rw [List.filter_append, since_snoc]
      by_cases same : last = line
      · subst same
        simp [kept, since_snoc]
      · cases here : keep last with
        | true => simp [here, same, since_snoc, ih]
        | false => simp [here, same, ih]

theorem stack_snoc (stream : List α) (last : α) :
    stackOf (stream ++ [last]) = last :: (stackOf stream).erase last := by
  rw [stackOf, List.foldl_append]
  rfl

theorem stack_nodup (stream : List α) : (stackOf stream).Nodup := by
  induction stream using List.reverseRecOn with
  | nil => exact List.nodup_nil
  | append_singleton stream last ih =>
      rw [stack_snoc]
      exact List.nodup_cons.mpr ⟨ih.not_mem_erase, ih.erase last⟩

theorem mem_stack (line : α) (stream : List α) : line ∈ stackOf stream ↔ line ∈ stream := by
  induction stream using List.reverseRecOn with
  | nil => exact Iff.rfl
  | append_singleton stream last ih =>
      rw [stack_snoc, List.mem_cons, (stack_nodup stream).mem_erase_iff, ih, List.mem_append, List.mem_singleton]
      by_cases same : line = last <;> simp [same]

theorem erase_before (line other : α) (apart : other ≠ line) (stack : List α) :
    (stack.erase other).takeWhile (fun above => above != line) =
      (stack.takeWhile (fun above => above != line)).erase other := by
  induction stack with
  | nil => rfl
  | cons head rest ih =>
      by_cases same : head = line
      · subst same
        have kept : (head :: rest).erase other = head :: rest.erase other :=
          List.erase_cons_tail (by simpa using fun taken => apart taken.symm)
        simp [kept]
      · by_cases taken : head = other
        · subst taken
          simp [same]
        · have kept : ∀ tail : List α, (head :: tail).erase other = head :: tail.erase other := fun tail =>
            List.erase_cons_tail (by simpa using taken)
          simp [kept, same, ih]

theorem above_in_stack (line : α) (stream : List α) :
    ((stackOf stream).takeWhile (fun above => above != line)).toFinset = (since line stream).toFinset := by
  induction stream using List.reverseRecOn with
  | nil => rfl
  | append_singleton stream last ih =>
      rw [stack_snoc, since_snoc]
      by_cases same : last = line
      · simp [same]
      · have distinct := (stack_nodup stream).sublist (List.takeWhile_sublist (fun above => above != line))
        ext other
        have above := Finset.ext_iff.mp ih other
        rw [List.mem_toFinset, List.mem_toFinset] at above
        rw [if_neg same, List.takeWhile_cons_of_pos (by simpa using same), erase_before line last same]
        simp only [List.mem_toFinset, List.mem_cons, distinct.mem_erase_iff, above]
        by_cases here : other = last <;> simp [here]

theorem front_iff (line : α) (ways : Nat) (stack : List α) :
    line ∈ stack.take ways ↔ line ∈ stack ∧ (stack.takeWhile (fun above => above != line)).length < ways := by
  induction stack generalizing ways with
  | nil => simp
  | cons head rest ih =>
      cases ways with
      | zero => simp
      | succ ways =>
          by_cases same : head = line
          · simp [same]
          · have other : line ≠ head := fun taken => same taken.symm
            simp [same, other, ih]

-- Stack distance: a line is among the first ways of the stack when fewer other
-- lines than that came behind it.
theorem stack_front_iff (line : α) (ways : Nat) (stream : List α) :
    line ∈ (stackOf stream).take ways ↔ line ∈ stream ∧ (since line stream).toFinset.card < ways := by
  have distinct := (stack_nodup stream).sublist (List.takeWhile_sublist (fun above => above != line))
  rw [front_iff, mem_stack, ← above_in_stack, List.toFinset_card_of_nodup distinct]

end Stack

def reuseDistance (sets line : Nat) (stream : List Nat) : Nat :=
  ((since line stream).filter (fun other => other % sets == line % sets)).toFinset.card

theorem touched_front (ways line : Nat) (stack : List Nat) :
    touch ways line (stack.take ways) = (line :: stack.erase line).take ways := by
  cases ways with
  | zero => rfl
  | succ ways => rw [touch, List.take_succ_cons, List.take_succ_cons, erase_take]

theorem run_recency (sets ways : Nat) (stream : List Nat) (set : Nat) :
    (run sets ways stream).recency set = (stackOf (stream.filter (fun line => line % sets == set))).take ways := by
  induction stream using List.reverseRecOn with
  | nil => exact List.take_nil.symm
  | append_singleton stream line ih =>
      rw [run_snoc, access_recency, List.filter_append]
      by_cases here : line % sets = set
      · subst here
        rw [Function.update_self, ih, touched_front]
        simp [stack_snoc]
      · rw [Function.update_of_ne (fun same => here same.symm), ih]
        simp [here]

theorem run_holds_iff (sets ways : Nat) (stream : List Nat) (line : Nat) :
    (run sets ways stream).holds sets line ↔ line ∈ stream ∧ reuseDistance sets line stream < ways := by
  rw [Reference.holds, run_recency, stack_front_iff, List.mem_filter, beq_self_eq_true, and_iff_left rfl,
    since_filter line (fun other => other % sets == line % sets) (beq_self_eq_true _), reuseDistance]

end CpuEmulator.Library.Lru
