import Mathlib.Data.Nat.Digits.Lemmas

set_option autoImplicit false

namespace CpuEmulator.Library.Numerals

def written (base n : Nat) : List Nat := if n = 0 then [0] else (Nat.digits base n).reverse

def valueOf (base : Nat) (digits : List Nat) : Nat := digits.foldl (fun value digit => value * base + digit) 0

variable (base n : Nat)

theorem written_filled : written base n ≠ [] := by
  rw [written]
  split
  · exact List.cons_ne_nil 0 []
  · rename_i other
    rw [Ne, List.reverse_eq_nil_iff]
    exact Nat.digits_ne_nil_iff_ne_zero.mpr other

theorem written_below (positional : 1 < base) : ∀ digit ∈ written base n, digit < base := by
  rw [written]
  split
  · intro digit member
    rw [List.mem_singleton.mp member]
    exact Nat.zero_lt_of_lt positional
  · intro digit member
    exact Nat.digits_lt_base positional (List.mem_reverse.mp member)

theorem written_length (positional : 1 < base) (room : Nat) (some : 0 < room) (fits : n < base ^ room) :
    (written base n).length ≤ room := by
  rw [written]
  split
  · exact some
  · rw [List.length_reverse]
    exact (Nat.digits_length_le_iff positional n).mpr fits

theorem value_written : valueOf base (written base n) = n := by
  rw [written]
  split
  · rename_i zero
    simp only [zero, valueOf, List.foldl_cons, List.foldl_nil, Nat.zero_mul, Nat.add_zero]
  · rw [valueOf, List.foldl_reverse]
    have counted := Nat.ofDigits_digits base n
    rw [Nat.ofDigits_eq_foldr] at counted
    refine Eq.trans ?_ counted
    congr 1
    funext digit value
    rw [Nat.cast_id, Nat.mul_comm, Nat.add_comm]

end CpuEmulator.Library.Numerals
