import CpuEmulator.Assembler.ParseLine
import CpuEmulator.Library.Numerals
import Mathlib.Data.List.TakeWhile

set_option autoImplicit false

namespace CpuEmulator.Assembler

open Library

def isPlain (c : Char) : Bool := c != ' ' && c != ',' && c != '\n'

structure IsWord (word : Text) : Prop where
  filled : word ≠ []
  plain : word.all isPlain = true

section Characters

theorem plain_not (c other : Char) (plain : isPlain c = true) (separates : isPlain other = false) : c ≠ other :=
  fun same => Bool.false_ne_true (separates.symm.trans (same ▸ plain))

theorem word_not (word : Text) (isWord : IsWord word) (other : Char) (separates : isPlain other = false) :
    ∀ c ∈ word, c ≠ other := fun c member => plain_not c other (List.all_eq_true.mp isWord.plain c member) separates

theorem digit_code (base : Nat) (c : Char) (small : base ≤ 36) (digit : isDigit base c = true) : 48 ≤ c.toNat := by
  have value : digitValue c < 36 := Nat.lt_of_lt_of_le (of_decide_eq_true digit) small
  rw [digitValue] at value
  by_cases decimal : '0' ≤ c ∧ c ≤ '9'
  · exact decimal.1
  · rw [if_neg decimal] at value
    by_cases lower : 'a' ≤ c ∧ c ≤ 'z'
    · exact Nat.le_trans (by decide) (show 97 ≤ c.toNat from lower.1)
    · rw [if_neg lower] at value
      by_cases upper : 'A' ≤ c ∧ c ≤ 'Z'
      · exact Nat.le_trans (by decide) (show 65 ≤ c.toNat from upper.1)
      · rw [if_neg upper] at value
        exact absurd value (Nat.lt_irrefl 36)

theorem digit_not (base : Nat) (c other : Char) (small : base ≤ 36) (digit : isDigit base c = true)
    (before : other.toNat < 48) : c ≠ other := fun same =>
  Nat.lt_irrefl 48 (Nat.lt_of_le_of_lt (digit_code base c small digit) (same ▸ before))

theorem digit_plain (base : Nat) (c : Char) (small : base ≤ 36) (digit : isDigit base c = true) : isPlain c = true := by
  rw [isPlain, bne_iff_ne.mpr (digit_not base c ' ' small digit (by decide)),
    bne_iff_ne.mpr (digit_not base c ',' small digit (by decide)), bne_iff_ne.mpr (digit_not base c '\n' small digit (by decide))]
  rfl

theorem late_not_space (c : Char) (code : 48 ≤ c.toNat) : isSpace c = false := by
  have blank : (c == ' ') = false := beq_eq_false_iff_ne.mpr (fun same => absurd (same ▸ code) (by decide))
  have control : decide (c.toNat ≤ 13) = false := decide_eq_false (by omega)
  rw [isSpace, blank, control, Bool.and_false, Bool.or_false]

end Characters

structure Numeral (base : Nat) where
  digits : Text
  filled : digits ≠ []
  valid : ∀ c ∈ digits, isDigit base c = true
  fits : numeralValue base digits < 2 ^ 64

def Numeral.value {base : Nat} (numeral : Numeral base) : U64 := BitVec.ofNat 64 (numeralValue base numeral.digits)

inductive HexMarker where
  | bare | lower | upper
deriving DecidableEq, Repr

def HexMarker.text : HexMarker → Text
  | .bare => []
  | .lower => ['0', 'x']
  | .upper => ['0', 'X']

structure Address where
  marker : HexMarker
  numeral : Numeral 16

def Address.inner (address : Address) : Text := address.marker.text ++ address.numeral.digits

def Address.text (address : Address) : Text := '[' :: (address.inner ++ [']'])

def Address.value (address : Address) : U64 := address.numeral.value

section Numerals

theorem numeral_start (base : Nat) (small : base ≤ 36) (numeral : Numeral base) :
    ∃ c rest, numeral.digits = c :: rest ∧ 48 ≤ c.toNat := by
  cases digits : numeral.digits with
  | nil => exact absurd digits numeral.filled
  | cons c rest => exact ⟨c, rest, rfl, digit_code base c small (numeral.valid c (digits ▸ List.mem_cons_self))⟩

theorem nothing_skipped (c : Char) (rest : Text) (code : 48 ≤ c.toNat) :
    dropSign ((c :: rest).dropWhile isSpace) = (false, c :: rest) := by
  have unsigned (sign : Char) (tail : Text) (early : sign.toNat < 48) (same : c :: rest = sign :: tail) : False :=
    Nat.lt_irrefl 48 (Nat.lt_of_le_of_lt code ((List.cons.inj same).1 ▸ early))
  rw [List.dropWhile_cons, late_not_space c code, if_neg Bool.false_ne_true, dropSign]
  · exact fun tail same => unsigned '+' tail (by decide) same
  · exact fun tail same => unsigned '-' tail (by decide) same

theorem strtoull_body (base : Nat) (numeral : Numeral base) (c : Char) (rest : Text) (code : 48 ≤ c.toNat)
    (body : (if base = 16 then dropHexPrefix (c :: rest) else c :: rest) = numeral.digits) :
    strtoull base (c :: rest) = ⟨numeral.value, [], false⟩ := by
  have taken : numeral.digits.takeWhile (isDigit base) = numeral.digits := List.takeWhile_eq_self_iff.mpr numeral.valid
  have left : numeral.digits.dropWhile (isDigit base) = [] := List.dropWhile_eq_nil_iff.mpr numeral.valid
  rw [strtoull, nothing_skipped c rest code]
  dsimp only
  rw [body, taken, left, if_neg numeral.filled, if_neg (Nat.not_le.mpr numeral.fits), if_neg Bool.false_ne_true, Numeral.value]

theorem hex_digits_unmarked (numeral : Numeral 16) : dropHexPrefix numeral.digits = numeral.digits := by
  have unmarked (x : Char) (other : isDigit 16 x = false) (c : Char) (rest : Text) (same : numeral.digits = '0' :: x :: c :: rest) :
      False := by
    have digit := numeral.valid x (same ▸ List.mem_cons_of_mem _ List.mem_cons_self)
    exact Bool.false_ne_true (other.symm.trans digit)
  rw [dropHexPrefix]
  · exact unmarked 'x' (by decide)
  · exact unmarked 'X' (by decide)

theorem parse_int_numeral (numeral : Numeral 10) : parseInt numeral.digits = some numeral.value := by
  obtain ⟨c, rest, start, code⟩ := numeral_start 10 (by decide) numeral
  have converted := strtoull_body 10 numeral c rest code (start ▸ rfl)
  have consumed : ¬ (0 = (c :: rest).length ∨ false = true ∨ ([] : Text) ≠ []) := by
    rintro (empty | range | more)
    · exact Nat.succ_ne_zero _ empty.symm
    · exact Bool.false_ne_true range
    · exact more rfl
  rw [start, parseInt, converted, List.length_nil, if_neg consumed]

theorem strtoull_address (address : Address) : (strtoull 16 address.inner).value = address.value := by
  obtain ⟨c, rest, start, code⟩ := numeral_start 16 (by decide) address.numeral
  have digit : isDigit 16 c = true := address.numeral.valid c (start ▸ List.mem_cons_self)
  have unmarked := hex_digits_unmarked address.numeral
  rw [Address.inner, Address.value]
  cases address.marker with
  | bare =>
      rw [start] at unmarked
      rw [HexMarker.text, List.nil_append, start]
      rw [strtoull_body 16 address.numeral c rest code (by rw [if_pos rfl, unmarked, start])]
  | lower =>
      have dropped : dropHexPrefix ('0' :: 'x' :: c :: rest) = c :: rest := by rw [dropHexPrefix, if_pos digit]
      rw [HexMarker.text, start, List.cons_append, List.cons_append, List.nil_append]
      rw [strtoull_body 16 address.numeral '0' _ (by decide) (by rw [if_pos rfl, dropped, start])]
  | upper =>
      have dropped : dropHexPrefix ('0' :: 'X' :: c :: rest) = c :: rest := by rw [dropHexPrefix, if_pos digit]
      rw [HexMarker.text, start, List.cons_append, List.cons_append, List.nil_append]
      rw [strtoull_body 16 address.numeral '0' _ (by decide) (by rw [if_pos rfl, dropped, start])]

end Numerals

def bracket (text : Text) : Text := '[' :: (text ++ [']'])

section Words

theorem mnemonic_word (op : Opcode) : IsWord (mnemonic op) := by
  cases op <;> exact ⟨by decide, by decide⟩

theorem register_word (reg : Fin 4) : IsWord (registerName reg) := by
  have each : ∀ reg, registerName reg ≠ [] ∧ (registerName reg).all isPlain = true := by decide
  exact ⟨(each reg).1, (each reg).2⟩

theorem numeral_word (base : Nat) (small : base ≤ 36) (numeral : Numeral base) : IsWord numeral.digits :=
  ⟨numeral.filled, List.all_eq_true.mpr (fun c member => digit_plain base c small (numeral.valid c member))⟩

theorem address_word (address : Address) : IsWord address.text := by
  have marker : address.marker.text.all isPlain = true := by
    cases address.marker <;> rfl
  refine ⟨List.cons_ne_nil _ _, List.all_eq_true.mpr (fun c member => ?_)⟩
  rw [Address.text, Address.inner, List.mem_cons, List.mem_append, List.mem_append, List.mem_singleton] at member
  obtain rfl | (inside | inside) | rfl := member
  · rfl
  · exact List.all_eq_true.mp marker c inside
  · exact digit_plain 16 c (by decide) (address.numeral.valid c inside)
  · rfl

theorem operation_of_mnemonic (op : Opcode) : operationOf (mnemonic op) = some op := by
  cases op <;> rfl

theorem register_of_name (reg : Fin 4) : registerOf (registerName reg) = some reg := by
  have each : ∀ reg, registerOf (registerName reg) = some reg := by decide
  exact each reg

theorem register_of_other (word : Text) (start : word.head? ≠ some 'R') : registerOf word = none := by
  have named : ∀ reg, (registerName reg).head? = some 'R' := by decide
  refine List.find?_eq_none.mpr (fun reg _ same => start ?_)
  rw [← eq_of_beq same]
  exact named reg

theorem bracket_not_register (text : Text) : registerOf (bracket text) = none :=
  register_of_other (bracket text) (by rw [bracket, List.head?_cons]; decide)

theorem bracket_bracketed (text : Text) : isBracketed (bracket text) = true := by
  rw [isBracketed, bracket, List.head?_cons, ← List.cons_append, List.getLast?_append, List.getLast?_singleton]
  rfl

theorem bracket_unbracketed (text : Text) : unbracketed (bracket text) = text := by
  rw [unbracketed, bracket, ← List.cons_append, List.dropLast_concat, List.drop_one, List.tail_cons]

theorem address_not_register (address : Address) : registerOf address.text = none := bracket_not_register address.inner

theorem address_bracketed (address : Address) : isBracketed address.text = true := bracket_bracketed address.inner

theorem address_unbracketed (address : Address) : unbracketed address.text = address.inner := bracket_unbracketed address.inner

theorem numeral_head (base : Nat) (numeral : Numeral base) (c : Char) (other : isDigit base c = false) :
    numeral.digits.head? ≠ some c := fun same =>
  Bool.false_ne_true (other.symm.trans (numeral.valid c (List.mem_of_mem_head? same)))

theorem literal_not_register (literal : Numeral 10) : registerOf literal.digits = none :=
  register_of_other literal.digits (numeral_head 10 literal 'R' (by decide))

theorem literal_not_bracketed (literal : Numeral 10) : isBracketed literal.digits = false := by
  rw [isBracketed, beq_eq_false_iff_ne.mpr (numeral_head 10 literal '[' (by decide)), Bool.false_and]

end Words

section Digits

theorem digit_char_value (digit : Nat) (below : digit < 16) : digitValue (Nat.digitChar digit) = digit := by
  have each : ∀ digit : Fin 16, digitValue (Nat.digitChar digit.val) = digit.val := by decide
  exact each ⟨digit, below⟩

def digitsOf (base : Nat) (value : U64) : Text := (Numerals.written base value.toNat).map Nat.digitChar

variable (base : Nat) (positional : 1 < base) (small : base ≤ 16) (value : U64)

theorem digits_of_filled : digitsOf base value ≠ [] := fun none =>
  Numerals.written_filled base value.toNat (List.map_eq_nil_iff.mp none)

include positional small

theorem digits_of_valid : ∀ c ∈ digitsOf base value, isDigit base c = true := by
  intro c member
  obtain ⟨digit, inside, rfl⟩ := List.mem_map.mp member
  have below := Numerals.written_below base value.toNat positional digit inside
  rw [isDigit, digit_char_value digit (Nat.lt_of_lt_of_le below small)]
  exact decide_eq_true below

theorem digits_of_value : numeralValue base (digitsOf base value) = value.toNat := by
  rw [numeralValue, digitsOf, List.foldl_map]
  refine Eq.trans ?_ (Numerals.value_written base value.toNat)
  refine List.foldl_ext _ _ 0 fun known digit member => ?_
  rw [digit_char_value digit (Nat.lt_of_lt_of_le (Numerals.written_below base value.toNat positional digit member) small)]

end Digits

end CpuEmulator.Assembler
