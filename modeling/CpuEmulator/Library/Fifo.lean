import Mathlib.Data.List.TakeDrop

set_option autoImplicit false

namespace CpuEmulator.Library

-- A queue as its users see it: all that ever entered, in order, and how much of
-- it has left.
structure Fifo (α : Type) where
  entered : List α
  left : Nat
  bounded : left ≤ entered.length

namespace Fifo

variable {α : Type}

def empty : Fifo α := ⟨[], 0, Nat.le_refl 0⟩

def served (queue : Fifo α) : List α := queue.entered.take queue.left
def pending (queue : Fifo α) : List α := queue.entered.drop queue.left

def enqueue (queue : Fifo α) (entry : α) : Fifo α where
  entered := queue.entered ++ [entry]
  left := queue.left
  bounded := by
    rw [List.length_append]
    exact Nat.le_add_right_of_le queue.bounded

def serve (queue : Fifo α) (n : Nat) : Fifo α where
  entered := queue.entered
  left := min (queue.left + n) queue.entered.length
  bounded := Nat.min_le_right _ _

theorem served_prefix (queue : Fifo α) : queue.served <+: queue.entered := List.take_prefix _ _

theorem pending_length (queue : Fifo α) : queue.pending.length = queue.entered.length - queue.left :=
  List.length_drop

theorem served_enqueue (queue : Fifo α) (entry : α) : (queue.enqueue entry).served = queue.served :=
  List.take_append_of_le_length queue.bounded

theorem served_serve (queue : Fifo α) (n : Nat) : (queue.serve n).served = queue.served ++ queue.pending.take n := by
  simp only [served, pending, serve]
  rw [← List.take_add]
  by_cases whole : queue.left + n ≤ queue.entered.length
  · rw [Nat.min_eq_left whole]
  · rw [Nat.min_eq_right (by omega), List.take_of_length_le (Nat.le_refl _), List.take_of_length_le (by omega)]

theorem pending_serve (queue : Fifo α) (n : Nat) : (queue.serve n).pending = queue.pending.drop n := by
  simp only [pending, serve, List.drop_drop]
  by_cases whole : queue.left + n ≤ queue.entered.length
  · rw [Nat.min_eq_left whole]
  · rw [Nat.min_eq_right (by omega), List.drop_length, List.drop_of_length_le (by omega)]

theorem serve_zero (queue : Fifo α) : queue.serve 0 = queue := by
  have stays : min (queue.left + 0) queue.entered.length = queue.left := Nat.min_eq_left queue.bounded
  cases queue
  simp only [serve, Fifo.mk.injEq, true_and]
  exact stays

theorem serve_add (queue : Fifo α) (m n : Nat) : (queue.serve m).serve n = queue.serve (m + n) := by
  simp only [serve, Fifo.mk.injEq, true_and]
  omega

end Fifo

end CpuEmulator.Library
