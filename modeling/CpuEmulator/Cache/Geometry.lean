import CpuEmulator.Cache.Simulator
import Mathlib.Algebra.Order.Group.Nat

set_option autoImplicit false

namespace CpuEmulator.Cache

theorem fast_log2_loop_power (fuel k log : Nat) (enough : k ≤ fuel) : fastLog2Loop fuel (2 ^ k) log = log + k := by
  induction fuel generalizing k log with
  | zero =>
      obtain rfl : k = 0 := Nat.le_zero.mp enough
      rfl
  | succ fuel ih =>
      cases k with
      | zero => rfl
      | succ k =>
          have half : 2 ^ (k + 1) / 2 = 2 ^ k := by
            rw [Nat.pow_succ, Nat.mul_div_cancel _ (Nat.zero_lt_succ 1)]
          rw [fastLog2Loop, half, if_neg (Nat.two_pow_pos k).ne', ih k (log + 1) (by omega)]
          omega

theorem fast_log2_power (k : Nat) (small : k ≤ 32) : fastLog2 (2 ^ k) = k := by
  rw [fastLog2, fast_log2_loop_power 32 k 0 small, Nat.zero_add]

theorem power_of_two_exponent (x : Nat) (power : isPowerOfTwo x = true) : ∃ k, x = 2 ^ k := by
  simp only [isPowerOfTwo] at power
  rw [Bool.and_eq_true, bne_iff_ne, beq_iff_eq] at power
  exact Nat.ne_zero_and_sub_one_eq_zero_iff_isPowerOfTwo.mp power

theorem power_of_two_two_pow (k : Nat) : isPowerOfTwo (2 ^ k) = true := by
  simp only [isPowerOfTwo]
  rw [Bool.and_eq_true, bne_iff_ne, beq_iff_eq]
  exact Nat.ne_zero_and_sub_one_eq_zero_iff_isPowerOfTwo.mpr ⟨k, rfl⟩

structure Shaped (cache : CacheLevel) : Prop where
  line : ∃ k, k ≤ 16 ∧ cache.lineSize = 2 ^ k
  sets : ∃ k, k ≤ 16 ∧ cache.numSets = 2 ^ k
  ways : 0 < cache.associativity

def lineOf (cache : CacheLevel) (address : U64) : Nat := address.toNat / cache.lineSize

def storedLine (cache : CacheLevel) (set : Nat) (line : CacheLine) : Nat := line.tag.toNat * cache.numSets + set

section Shaped

variable (cache : CacheLevel) (address : U64)

theorem num_sets_pos (shaped : Shaped cache) : 0 < cache.numSets := by
  obtain ⟨k, _, sets⟩ := shaped.sets
  rw [sets]
  exact Nat.two_pow_pos k

theorem tag_of_line (shaped : Shaped cache) : (tagOf cache address).toNat = lineOf cache address / cache.numSets := by
  obtain ⟨lineBits, smallLine, line⟩ := shaped.line
  obtain ⟨setBits, smallSets, sets⟩ := shaped.sets
  rw [tagOf, tagShift, lineOf, line, sets, fast_log2_power lineBits (by omega), fast_log2_power setBits (by omega),
    BitVec.toNat_ushiftRight, Nat.shiftRight_eq_div_pow, Nat.pow_add, Nat.div_div_eq_div_mul]

theorem index_of_line (shaped : Shaped cache) : indexOf cache address = lineOf cache address % cache.numSets := by
  obtain ⟨lineBits, smallLine, line⟩ := shaped.line
  obtain ⟨setBits, smallSets, sets⟩ := shaped.sets
  have fits : 2 ^ setBits - 1 < 2 ^ 64 := by
    have bound := Nat.pow_le_pow_right Nat.zero_lt_two smallSets
    omega
  rw [indexOf, lineOf, line, sets, fast_log2_power lineBits (by omega), BitVec.toNat_and, BitVec.toNat_ushiftRight,
    BitVec.toNat_ofNat, Nat.mod_eq_of_lt fits, Nat.and_two_pow_sub_one_eq_mod, Nat.shiftRight_eq_div_pow]

theorem index_below (shaped : Shaped cache) : indexOf cache address < cache.numSets := by
  rw [index_of_line cache address shaped]
  exact Nat.mod_lt _ (num_sets_pos cache shaped)

theorem stored_line_here (shaped : Shaped cache) (line : CacheLine) :
    storedLine cache (indexOf cache address) line = lineOf cache address ↔ line.tag = tagOf cache address := by
  have positive := num_sets_pos cache shaped
  have split := Nat.div_add_mod' (lineOf cache address) cache.numSets
  rw [storedLine, index_of_line cache address shaped, ← BitVec.toNat_inj, tag_of_line cache address shaped]
  constructor
  · intro same
    have scaled : line.tag.toNat * cache.numSets = lineOf cache address / cache.numSets * cache.numSets := by omega
    exact Nat.eq_of_mul_eq_mul_right positive scaled
  · intro same
    rw [same]
    exact split

end Shaped

section Accepted

variable (p : Parameters) (lvl : Fin 3)

theorem accepted_levels (accepted : Accepted p) : 1 ≤ p.numLvls ∧ p.numLvls ≤ 3 := by
  have checked := accepted.numLvls
  rwa [isValidNumLvls, Bool.and_eq_true, decide_eq_true_iff, decide_eq_true_iff] at checked

theorem last_level (accepted : Accepted p) : ∃ last : Fin 3, p.numLvls = last.val + 1 := by
  obtain ⟨least, most⟩ := accepted_levels p accepted
  exact ⟨⟨p.numLvls - 1, by omega⟩, (Nat.sub_add_cancel least).symm⟩

theorem line_size_exponent (accepted : Accepted p) : ∃ k, k ≤ 6 ∧ p.lineSize = 2 ^ k := by
  have valid := accepted.lineSize
  simp only [isValidLineSize] at valid
  rw [Bool.or_eq_true, Bool.or_eq_true, beq_iff_eq, beq_iff_eq, beq_iff_eq] at valid
  rcases valid with (valid | valid) | valid
  · exact ⟨4, by decide, valid⟩
  · exact ⟨5, by decide, valid⟩
  · exact ⟨6, by decide, valid⟩

theorem assoc_exponent (accepted : Accepted p) (present : p.present lvl) : ∃ k, k ≤ 3 ∧ p.assoc lvl = 2 ^ k := by
  have valid := accepted.assoc lvl present
  simp only [isValidAssoc] at valid
  rw [Bool.and_eq_true, decide_eq_true_eq] at valid
  obtain ⟨k, power⟩ := power_of_two_exponent _ valid.1
  refine ⟨k, ?_, power⟩
  by_contra large
  have bound := Nat.pow_le_pow_right Nat.zero_lt_two (show 4 ≤ k by omega)
  omega

theorem lvl_size_exponent (accepted : Accepted p) (present : p.present lvl) : ∃ k, k ≤ 13 ∧ p.lvlSize lvl = 2 ^ k ∧ p.assoc lvl * p.lineSize ≤ p.lvlSize lvl := by
  have valid := accepted.lvlSize lvl present
  simp only [isValidLvlSize] at valid
  rw [Bool.and_eq_true, Bool.and_eq_true, decide_eq_true_eq, decide_eq_true_eq] at valid
  obtain ⟨⟨valid, large⟩, small⟩ := valid
  obtain ⟨k, power⟩ := power_of_two_exponent _ valid
  refine ⟨k, ?_, power, large⟩
  have most : ∀ any, lvlMaxSize any ≤ 8192 := by decide
  have mine := most lvl
  by_contra beyond
  have bound := Nat.pow_le_pow_right Nat.zero_lt_two (show 14 ≤ k by omega)
  omega

theorem num_sets_exponent (accepted : Accepted p) (present : p.present lvl) : ∃ k, k ≤ 13 ∧ p.lvlSize lvl / (p.lineSize * p.assoc lvl) = 2 ^ k := by
  obtain ⟨lineBits, _, line⟩ := line_size_exponent p accepted
  obtain ⟨wayBits, _, ways⟩ := assoc_exponent p lvl accepted present
  obtain ⟨sizeBits, small, size, large⟩ := lvl_size_exponent p lvl accepted present
  refine ⟨sizeBits - (lineBits + wayBits), by omega, ?_⟩
  rw [line, ways, size, ← Nat.pow_add] at large
  have fits : lineBits + wayBits ≤ sizeBits := by
    have order := (Nat.pow_le_pow_iff_right (Nat.one_lt_two)).mp large
    omega
  rw [line, ways, size, ← Nat.pow_add, Nat.pow_div fits Nat.zero_lt_two]

theorem init_shaped (accepted : Accepted p) (present : p.present lvl) : (cacheInit p lvl).2 = 0 ∧ Shaped (cacheInit p lvl).1 ∧
    (cacheInit p lvl).1 = ⟨p.lvlSize lvl, p.assoc lvl, p.lineSize, p.lvlSize lvl / (p.lineSize * p.assoc lvl),
      fun _ => List.replicate (p.assoc lvl) ⟨0, false, 0⟩, 0, 0⟩ := by
  obtain ⟨lineBits, smallLine, line⟩ := line_size_exponent p accepted
  obtain ⟨wayBits, _, ways⟩ := assoc_exponent p lvl accepted present
  obtain ⟨setBits, smallSets, sets⟩ := num_sets_exponent p lvl accepted present
  have power := power_of_two_two_pow setBits
  rw [← sets] at power
  have done : cacheInit p lvl = (⟨p.lvlSize lvl, p.assoc lvl, p.lineSize, p.lvlSize lvl / (p.lineSize * p.assoc lvl),
      fun _ => List.replicate (p.assoc lvl) ⟨0, false, 0⟩, 0, 0⟩, 0) := by
    simp only [cacheInit, power, Bool.not_true, Bool.false_eq_true, if_false]
  rw [done]
  refine ⟨rfl, ⟨⟨lineBits, by omega, line⟩, ⟨setBits, by omega, sets⟩, ?_⟩, rfl⟩
  change 0 < p.assoc lvl
  rw [ways]
  exact Nat.two_pow_pos wayBits

end Accepted

end CpuEmulator.Cache
