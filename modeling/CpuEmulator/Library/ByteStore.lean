import Mathlib.Logic.Function.Basic

set_option autoImplicit false

namespace CpuEmulator.Library

-- Little-endian words of any width as sequences of bytes.
section Words

variable {w : Nat}

def leByte (word : BitVec w) (i : Nat) : BitVec 8 := (word >>> (8 * i)).setWidth 8

def leWord (w : Nat) (bytes : Nat → BitVec 8) : Nat → BitVec w
  | 0 => 0
  | n + 1 => leWord w bytes n ||| (bytes n).setWidth w <<< (8 * n)

theorem le_byte_bit (word : BitVec w) (i j : Nat) :
    (leByte word i).getLsbD j = (decide (j < 8) && word.getLsbD (8 * i + j)) := by
  simp [leByte]

theorem le_word_bit (bytes : Nat → BitVec 8) (n k : Nat) :
    (leWord w bytes n).getLsbD k = (decide (k < w) && decide (k < 8 * n) && (bytes (k / 8)).getLsbD (k % 8)) := by
  induction n with
  | zero => simp [leWord]
  | succ n ih =>
      simp only [leWord, BitVec.getLsbD_or, BitVec.getLsbD_shiftLeft, BitVec.getLsbD_setWidth, ih]
      by_cases low : k < 8 * n
      · simp [low, show k < 8 * (n + 1) by omega]
      · by_cases here : k < 8 * (n + 1)
        · have quotient : k / 8 = n := by omega
          have remainder : k - 8 * n = k % 8 := by omega
          simp only [low, here, quotient, remainder, decide_true, decide_false]
          by_cases wide : k < w
          · simp [wide, show k % 8 < w by omega]
          · simp [wide]
        · have absent : (bytes n).getLsbD (k - 8 * n) = false := BitVec.getLsbD_of_ge _ _ (by omega)
          simp [low, here, absent]

theorem le_word_of_bytes (word : BitVec w) (n : Nat) (covers : w ≤ 8 * n) :
    leWord w (leByte word) n = word := by
  apply BitVec.eq_of_getLsbD_eq
  intro k bound
  rw [le_word_bit, le_byte_bit]
  have index : 8 * (k / 8) + k % 8 = k := by omega
  simp [bound, show k < 8 * n by omega, Nat.mod_lt, index]

theorem le_word_congr (bytes other : Nat → BitVec 8) (n : Nat) (same : ∀ i, i < n → bytes i = other i) :
    leWord w bytes n = leWord w other n := by
  induction n with
  | zero => rfl
  | succ n ih =>
      rw [leWord, leWord, ih (fun i bound => same i (by omega)), same n (by omega)]

theorem le_byte_of_word (bytes : Nat → BitVec 8) (n i : Nat) (inside : i < n) (fits : 8 * n ≤ w) :
    leByte (leWord w bytes n) i = bytes i := by
  apply BitVec.eq_of_getLsbD_eq
  intro j bound
  have quotient : (8 * i + j) / 8 = i := by omega
  have remainder : (8 * i + j) % 8 = j := by omega
  rw [le_byte_bit, le_word_bit, quotient, remainder]
  simp [bound, show 8 * i + j < w by omega, show 8 * i + j < 8 * n by omega]

theorem le_word_bytes_injective (word other : BitVec w) (n : Nat) (covers : w ≤ 8 * n)
    (same : ∀ i, i < n → leByte word i = leByte other i) : word = other := by
  rw [← le_word_of_bytes word n covers, ← le_word_of_bytes other n covers]
  exact le_word_congr _ _ n same

end Words

-- A store of cells indexed by natural numbers, written by ascending loops.
section Cells

variable {α : Type}

def writeCells (mem : Nat → α) (addr : Nat) (cells : Nat → α) : Nat → (Nat → α)
  | 0 => mem
  | n + 1 => Function.update (writeCells mem addr cells n) (addr + n) (cells n)

theorem write_cells_apply (mem : Nat → α) (addr : Nat) (cells : Nat → α) (n x : Nat) :
    writeCells mem addr cells n x = if addr ≤ x ∧ x < addr + n then cells (x - addr) else mem x := by
  induction n with
  | zero => rw [writeCells, if_neg (by omega)]
  | succ n ih =>
      by_cases last : x = addr + n
      · subst last
        rw [writeCells, Function.update_self, if_pos (by omega), Nat.add_sub_cancel_left]
      · rw [writeCells, Function.update_of_ne last, ih]
        by_cases inside : addr ≤ x ∧ x < addr + n
        · rw [if_pos inside, if_pos (by omega)]
        · rw [if_neg inside, if_neg (by omega)]

theorem write_cells_outside (mem : Nat → α) (addr : Nat) (cells : Nat → α) (n x : Nat)
    (outside : x < addr ∨ addr + n ≤ x) : writeCells mem addr cells n x = mem x := by
  rw [write_cells_apply, if_neg (by omega)]

-- The store after writes of n cells each, the oldest first: every cell is the
-- one of the last write that covers it.
def overwritten (mem : Nat → α) (n : Nat) (writes : List (Nat × (Nat → α))) (x : Nat) : α :=
  match writes.reverse.find? (fun write => decide (write.1 ≤ x ∧ x < write.1 + n)) with
  | some write => write.2 (x - write.1)
  | none => mem x

theorem overwritten_snoc (mem : Nat → α) (n : Nat) (writes : List (Nat × (Nat → α))) (write : Nat × (Nat → α)) :
    overwritten mem n (writes ++ [write]) = writeCells (overwritten mem n writes) write.1 write.2 n := by
  funext x
  rw [write_cells_apply, overwritten, List.reverse_append, List.reverse_singleton, List.singleton_append, List.find?_cons]
  by_cases covered : write.1 ≤ x ∧ x < write.1 + n
  · rw [decide_eq_true covered, if_pos covered]
  · rw [decide_eq_false covered, if_neg covered]
    rfl

end Cells

end CpuEmulator.Library
