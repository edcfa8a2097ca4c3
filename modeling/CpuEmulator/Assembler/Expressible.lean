import CpuEmulator.Assembler.Linking
import CpuEmulator.Library.Numerals

set_option autoImplicit false

namespace CpuEmulator.Assembler

open Library Library.Addresses

-- The instructions that lines of the grammar stand for, in a program that has n
-- of them in front of its HALT.
inductive Plain (n : Nat) : Instruction → Prop where
  | registers (op : Opcode) (two : takesTwo op = true) (first second : Fin 4) :
      Plain n ⟨BitVec.ofNat 64 second.val, BitVec.ofNat 8 first.val, op.code, Mode.register.code⟩
  | literal (op : Opcode) (two : takesTwo op = true) (first : Fin 4) (value : U64) :
      Plain n ⟨value, BitVec.ofNat 8 first.val, op.code, Mode.immediate.code⟩
  | load (target : Fin 4) (address : U64) :
      Plain n ⟨address, BitVec.ofNat 8 target.val, Opcode.mov.code, Mode.directLoad.code⟩
  | store (address : U64) (source : Fin 4) :
      Plain n ⟨address, BitVec.ofNat 8 source.val, Opcode.mov.code, Mode.directStore.code⟩
  | negate (register : Fin 4) (named : Bool) :
      Plain n ⟨BitVec.ofNat 64 register.val, if named then BitVec.ofNat 8 register.val else uint8Max, Opcode.not.code,
        Mode.register.code⟩
  | branch (op : Opcode) (jumps : op.isBranch = true) (target : U64) (inside : target.toNat ≤ n) :
      Plain n ⟨target, uint8Max, op.code, Mode.label.code⟩

structure Orderly (lines : List Text) : Prop where
  short : ∀ line ∈ lines, line.length < maxLen
  formed : ∀ line ∈ lines, WellFormed line
  labelled : ∀ line ∈ lines, kindOf line = .instruction → ∀ label, branchLabel line = some label → Defined lines label

section Reading

variable (labels : Labels) (layout : Layout)

-- Spaces behind the operand of NOT make a second field of it.
theorem negate_operand (register : Fin 4) (rest : Text) (instr : Instruction)
    (parsed : parseLine ⟨(Statement.negate register).line layout, rest⟩ labels = some instr) :
    ∃ named : Bool, instr = ⟨BitVec.ofNat 64 register.val, if named then BitVec.ofNat 8 register.val else uint8Max,
      Opcode.not.code, Mode.register.code⟩ := by
  obtain ⟨parts, split, operation, place⟩ := split_one_operand layout .not rest (registerName register) (register_word register)
  have chosen : Mode.register.code ≠ uint8Max := by decide
  simp only [Statement.line, Statement.opcode, Statement.operands] at parsed
  obtain ⟨part2, part3⟩ | ⟨part2, part3⟩ := place
  · simp only [parseLine, split, operation, Option.bind_some, operation_of_mnemonic, Opcode.isBranch, Bool.false_eq_true, if_false,
      if_true, parseOperands, part2, part3, Option.none_or, Option.map_some, parseOperand2, parseOperand1, register_of_name,
      defaultMode, if_neg chosen, Option.some.injEq] at parsed
    exact ⟨true, parsed.symm⟩
  · simp only [parseLine, split, operation, Option.bind_some, operation_of_mnemonic, Opcode.isBranch, Bool.false_eq_true, if_false,
      if_true, parseOperands, part2, part3, Option.some_or, Option.map_some, parseOperand2, register_of_name,
      Option.some.injEq] at parsed
    exact ⟨false, parsed.symm⟩

theorem statement_plain (n : Nat) (statement : Statement) (rest : Text) (instr : Instruction)
    (parsed : parseLine ⟨statement.line layout, rest⟩ labels = some instr)
    (inside : ∀ op : Opcode, op.isBranch = true → instr.opcode = op.code → instr.operand2.toNat ≤ n) : Plain n instr := by
  cases statement with
  | registers op first second =>
      have known := parse_registers layout labels rest op.val op.property first second
      obtain rfl := Option.some.inj (known.symm.trans parsed)
      exact .registers op.val op.property first second
  | literal op first value =>
      have known := parse_literal layout labels rest op.val op.property first value
      obtain rfl := Option.some.inj (known.symm.trans parsed)
      exact .literal op.val op.property first value.value
  | load target address =>
      have known := parse_load layout labels rest target address
      obtain rfl := Option.some.inj (known.symm.trans parsed)
      exact .load target address.value
  | store address source =>
      have known := parse_store layout labels rest address source
      obtain rfl := Option.some.inj (known.symm.trans parsed)
      exact .store address.value source
  | negate register =>
      obtain ⟨named, rfl⟩ := negate_operand labels layout register rest instr parsed
      exact .negate register named
  | branch op label =>
      have known := parse_branch layout labels rest op.val op.property label.name label.isWord
      obtain rfl := Option.some.inj (known.symm.trans parsed)
      exact .branch op.val op.property _ (inside op.val op.property rfl)

end Reading

section Numbers

section Digits

variable (base : Nat) (positional : 1 < base) (small : base ≤ 16) (value : U64)

include positional in
theorem digits_of_length (room : Nat) (some : 0 < room) (wide : 2 ^ 64 ≤ base ^ room) : (digitsOf base value).length ≤ room := by
  rw [digitsOf, List.length_map]
  exact Numerals.written_length base value.toNat positional room some (Nat.lt_of_lt_of_le value.isLt wide)

include positional small

theorem digits_of_fits : numeralValue base (digitsOf base value) < 2 ^ 64 := by
  rw [digits_of_value base positional small value]
  exact value.isLt

def numeralOf : Numeral base :=
  ⟨digitsOf base value, digits_of_filled base value, digits_of_valid base positional small value,
    digits_of_fits base positional small value⟩

theorem numeral_of_value : (numeralOf base positional small value).value = value := by
  rw [Numeral.value, numeralOf, digits_of_value base positional small value, BitVec.ofNat_toNat, BitVec.setWidth_eq]

end Digits

end Numbers

section Lines

def isQuiet (c : Char) : Bool := c != ';' && c != ':' && c != nul && c != '\n'

theorem quiet_not (text : Text) (quiet : text.all isQuiet = true) :
    ∀ c ∈ text, (c == ';') = false ∧ (c == ':') = false ∧ (c != nul) = true ∧ (c == '\n') = false := by
  intro c member
  have each := List.all_eq_true.mp quiet c member
  simp only [isQuiet, Bool.and_eq_true, bne_iff_ne] at each
  exact ⟨beq_eq_false_iff_ne.mpr each.1.1.1, beq_eq_false_iff_ne.mpr each.1.1.2, bne_iff_ne.mpr each.1.2, beq_eq_false_iff_ne.mpr each.2⟩

theorem digits_quiet (base : Nat) (small : base ≤ 16) (digits : Text) (valid : ∀ c ∈ digits, isDigit base c = true) :
    digits.all isQuiet = true := by
  refine List.all_eq_true.mpr fun c member => ?_
  have other (x : Char) (plain : 16 ≤ digitValue x) : c ≠ x := by
    rintro rfl
    exact absurd (of_decide_eq_true (valid c member)) (Nat.not_lt.mpr (Nat.le_trans small plain))
  simp only [isQuiet, bne_iff_ne.mpr (other ';' (by decide)), bne_iff_ne.mpr (other ':' (by decide)),
    bne_iff_ne.mpr (other nul (by decide)), bne_iff_ne.mpr (other '\n' (by decide)), Bool.and_self]

theorem visible_quiet (text tail : Text) (quiet : text.all isQuiet = true) (plain : tail.all (fun c => c != ';' && c != nul) = true) :
    visible (text ++ tail) = text ++ tail := by
  have each : ∀ c ∈ text ++ tail, (c == ';') = false ∧ (c != nul) = true := by
    intro c member
    obtain inside | inside := List.mem_append.mp member
    · exact ⟨(quiet_not text quiet c inside).1, (quiet_not text quiet c inside).2.2.1⟩
    · have both := List.all_eq_true.mp plain c inside
      rw [Bool.and_eq_true, bne_iff_ne] at both
      exact ⟨beq_eq_false_iff_ne.mpr both.1, both.2⟩
  have whole : cString (text ++ tail) = text ++ tail := List.takeWhile_eq_self_iff.mpr fun c member => (each c member).2
  rw [visible, whole, strip]
  exact List.takeWhile_eq_self_iff.mpr fun c member => by rw [(each c member).1]; rfl

def nameOf (address : Nat) : Text := 'L' :: digitsOf 10 (BitVec.ofNat 64 address)

theorem name_of_quiet (address : Nat) : (nameOf address).all isQuiet = true :=
  (List.all_cons ..).trans ((Bool.and_eq_true _ _).mpr
    ⟨rfl, digits_quiet 10 (by decide) _ (digits_of_valid 10 (by decide) (by decide) _)⟩)

theorem name_of_injective (address other : Nat) (small : address < 2 ^ 64) (small' : other < 2 ^ 64)
    (same : nameOf address = nameOf other) : address = other := by
  have values := congrArg (numeralValue 10) (List.cons.inj same).2
  rw [digits_of_value 10 (by decide) (by decide), digits_of_value 10 (by decide) (by decide), BitVec.toNat_ofNat, BitVec.toNat_ofNat,
    Nat.mod_eq_of_lt small, Nat.mod_eq_of_lt small'] at values
  exact values

theorem name_of_word (address : Nat) : IsWord (nameOf address) :=
  ⟨List.cons_ne_nil _ _, List.all_eq_true.mpr fun c member => by
    obtain rfl | inside := List.mem_cons.mp member
    · rfl
    · exact digit_plain 10 c (by decide) (digits_of_valid 10 (by decide) (by decide) _ c inside)⟩

theorem name_of_colonless (address : Nat) : ':' ∉ nameOf address := fun member =>
  Bool.false_ne_true ((quiet_not _ (name_of_quiet address) ':' member).2.1.symm.trans rfl)

theorem name_of_length (address : Nat) : (nameOf address).length ≤ 21 :=
  Nat.succ_le_succ (digits_of_length 10 (by decide) _ 20 (by decide) (by decide))

def labelLine (address : Nat) : Text := nameOf address ++ [':', '\n']

theorem label_line_visible (address : Nat) : visible (labelLine address) = labelLine address :=
  visible_quiet _ _ (name_of_quiet address) rfl

theorem label_line_key (address : Nat) : labelKey (labelLine address) = some (nameOf address) := by
  have found : (labelLine address).findIdx? (· == ':') = some (nameOf address).length := by
    rw [labelLine, List.findIdx?_append, find_missing ':' _ (name_of_colonless address), Option.none_or]
    exact congrArg some (Nat.zero_add _)
  have filled : isEmpty (labelLine address) = false := rfl
  rw [labelKey, label_line_visible, filled, if_neg Bool.false_ne_true, found, Option.map_some, labelLine, List.take_left]

theorem label_line_kind (address : Nat) : kindOf (labelLine address) = .label (nameOf address) :=
  (kind_label_iff _ _).mpr ⟨nameOf address, label_line_key address,
    List.take_of_length_le (Nat.le_trans (name_of_length address) (by decide))⟩

end Lines

section Spelling

structure Spelling (n : Nat) (instr : Instruction) where
  statement : Statement
  named : Bool
  quiet : (statement.operands.1 ++ statement.operands.2.getD []).all isQuiet = true
  short : (statement.operands.1 ++ statement.operands.2.getD []).length ≤ 40
  parsed : ∀ labels, (∀ address, address ≤ n → get labels (nameOf address) = some (BitVec.ofNat 64 address)) →
    parseLine ⟨statement.line ⟨0, 0, 0, 0, named.toNat, true⟩, []⟩ labels = some instr

theorem negate_split : ∀ (register : Fin 4) (named : Bool),
    splitByChar (replaceComma ⟨(Statement.negate register).line ⟨0, 0, 0, 0, named.toNat, true⟩, []⟩) ' ' =
      some ⟨some (mnemonic .not), if named then some (registerName register) else none,
        if named then none else some (registerName register)⟩ := by decide

theorem negate_named (register : Fin 4) (named : Bool) (labels : Labels) :
    parseLine ⟨(Statement.negate register).line ⟨0, 0, 0, 0, named.toNat, true⟩, []⟩ labels =
      some ⟨BitVec.ofNat 64 register.val, if named then BitVec.ofNat 8 register.val else uint8Max, Opcode.not.code,
        Mode.register.code⟩ := by
  have chosen : Mode.register.code ≠ uint8Max := by decide
  rw [parseLine, negate_split register named]
  cases named with
  | false =>
      simp only [Bool.false_eq_true, if_false, Option.bind_some, operation_of_mnemonic, Opcode.isBranch, if_true, parseOperands,
        Option.some_or, Option.map_some, parseOperand2, register_of_name]
  | true =>
      simp only [if_true, Option.bind_some, operation_of_mnemonic, Opcode.isBranch, Bool.false_eq_true, if_false, parseOperands,
        Option.none_or, Option.map_some, parseOperand2, parseOperand1, register_of_name, defaultMode, if_neg chosen]

theorem register_quiet : ∀ register : Fin 4, (registerName register).all isQuiet = true ∧ (registerName register).length = 2 := by
  decide

def addressOf (value : U64) : Address := ⟨.bare, numeralOf 16 (by decide) (by decide) value⟩

theorem address_of_text (value : U64) : (addressOf value).text = '[' :: (digitsOf 16 value ++ [']']) := rfl

theorem address_of_quiet (value : U64) : (addressOf value).text.all isQuiet = true ∧ (addressOf value).text.length ≤ 18 := by
  have digits := digits_quiet 16 (Nat.le_refl 16) _ (digits_of_valid 16 (by decide) (Nat.le_refl 16) value)
  have length := digits_of_length 16 (by decide) value 16 (by decide) (by decide)
  rw [address_of_text, List.all_cons, List.all_append, digits, List.length_cons, List.length_append]
  exact ⟨rfl, Nat.succ_le_succ (Nat.succ_le_succ length)⟩

theorem plain_spelled (n : Nat) (instr : Instruction) (plain : Plain n instr) : Nonempty (Spelling n instr) := by
  have both (first second : Text) (quiet : first.all isQuiet = true ∧ second.all isQuiet = true)
      (short : first.length + second.length ≤ 40) : (first ++ second).all isQuiet = true ∧ (first ++ second).length ≤ 40 := by
    rw [List.all_append, quiet.1, quiet.2, List.length_append]
    exact ⟨rfl, short⟩
  cases plain with
  | registers op two first second =>
      have name := register_quiet first
      have other := register_quiet second
      obtain ⟨quiet, short⟩ := both _ _ ⟨name.1, other.1⟩ (by omega)
      exact ⟨.registers ⟨op, two⟩ first second, false, quiet, short,
        fun labels _ => parse_registers _ labels [] op two first second⟩
  | literal op two first value =>
      have name := register_quiet first
      have digits := digits_quiet 10 (by decide) _ (digits_of_valid 10 (by decide) (by decide) value)
      have length := digits_of_length 10 (by decide) value 20 (by decide) (by decide)
      obtain ⟨quiet, short⟩ := both _ _ ⟨name.1, digits⟩ (by omega)
      refine ⟨.literal ⟨op, two⟩ first (numeralOf 10 (by decide) (by decide) value), false, quiet, short, fun labels _ => ?_⟩
      rw [Statement.line, Statement.opcode, Statement.operands, parse_literal _ labels [] op two, numeral_of_value]
  | load target address =>
      have name := register_quiet target
      have text := address_of_quiet address
      obtain ⟨quiet, short⟩ := both _ _ ⟨name.1, text.1⟩ (by omega)
      refine ⟨.load target (addressOf address), false, quiet, short, fun labels _ => ?_⟩
      rw [Statement.line, Statement.opcode, Statement.operands, parse_load, Address.value, addressOf, numeral_of_value]
  | store address source =>
      have name := register_quiet source
      have text := address_of_quiet address
      obtain ⟨quiet, short⟩ := both _ _ ⟨text.1, name.1⟩ (by omega)
      refine ⟨.store (addressOf address) source, false, quiet, short, fun labels _ => ?_⟩
      rw [Statement.line, Statement.opcode, Statement.operands, parse_store, Address.value, addressOf, numeral_of_value]
  | negate register named =>
      have name := register_quiet register
      obtain ⟨quiet, short⟩ := both _ [] ⟨name.1, rfl⟩ (by rw [name.2]; decide)
      exact ⟨.negate register, named, quiet, short, fun labels _ => negate_named register named labels⟩
  | branch op jumps target inside =>
      have length := name_of_length target.toNat
      obtain ⟨quiet, short⟩ := both _ [] ⟨name_of_quiet target.toNat, rfl⟩ (by rw [List.length_nil]; omega)
      refine ⟨.branch ⟨op, jumps⟩ ⟨nameOf target.toNat, name_of_word _, name_of_colonless _⟩, false, quiet, short,
        fun labels known => ?_⟩
      rw [Statement.line, Statement.opcode, Statement.operands, parse_branch _ labels [] op jumps _ (name_of_word _),
        known target.toNat inside, Option.getD_some, BitVec.ofNat_toNat, BitVec.setWidth_eq]

end Spelling

section Listing

def Ended (line : Text) : Prop := ∃ body, line = body ++ ['\n'] ∧ body.all (fun c => c != '\n') = true

structure Spells (n : Nat) (line : Text) (instr : Instruction) : Prop where
  ended : Ended line
  short : line.length < maxLen
  formed : WellFormed line
  kind : kindOf line = .instruction
  parsed : ∀ labels, (∀ address, address ≤ n → get labels (nameOf address) = some (BitVec.ofNat 64 address)) →
    parseLine ⟨visible line, []⟩ labels = some instr

theorem quiet_ended (text : Text) (quiet : text.all isQuiet = true) : text.all (fun c => c != '\n') = true :=
  List.all_eq_true.mpr fun c member => bne_iff_ne.mpr (beq_eq_false_iff_ne.mp (quiet_not text quiet c member).2.2.2)

theorem mnemonic_quiet (op : Opcode) : (mnemonic op).all isQuiet = true ∧ (mnemonic op).length ≤ 3 := by
  cases op <;> decide

theorem quiet_spaces (named : Bool) : (spaces named.toNat).all isQuiet = true ∧ (spaces named.toNat).length ≤ 1 := by
  cases named <;> decide

theorem spelled_body (op : Opcode) (first : Text) (second : Option Text) (named : Bool)
    (quiet : (first ++ second.getD []).all isQuiet = true) (short : (first ++ second.getD []).length ≤ 40) :
    ∃ body, (⟨0, 0, 0, 0, named.toNat, true⟩ : Layout).line op first second = mnemonic op ++ (body ++ ['\n']) ∧
      body.all isQuiet = true ∧ body.length ≤ 50 := by
  have gap := quiet_spaces named
  rw [List.all_append, Bool.and_eq_true] at quiet
  rw [List.length_append] at short
  cases second with
  | none =>
      refine ⟨' ' :: (first ++ spaces named.toNat), ?_, ?_, ?_⟩
      · simp only [Layout.line, Layout.operands, Layout.tail, ending, spaces, List.replicate_zero, List.nil_append, if_true,
          List.cons_append, List.append_assoc]
      · rw [List.all_cons, List.all_append, quiet.1, gap.1]
        rfl
      · rw [List.length_cons, List.length_append]
        omega
  | some other =>
      refine ⟨' ' :: (first ++ ',' :: (other ++ spaces named.toNat)), ?_, ?_, ?_⟩
      · simp only [Layout.line, Layout.operands, Layout.tail, ending, spaces, List.replicate_zero, List.nil_append, if_true,
          List.cons_append, List.append_assoc]
      · rw [Option.getD_some] at quiet
        rw [List.all_cons, List.all_append, List.all_cons, List.all_append, quiet.1, quiet.2, gap.1]
        rfl
      · rw [Option.getD_some] at short
        rw [List.length_cons, List.length_append, List.length_cons, List.length_append]
        omega

theorem spelling_spells (n : Nat) (instr : Instruction) (spelling : Spelling n instr) :
    Spells n (spelling.statement.line ⟨0, 0, 0, 0, spelling.named.toNat, true⟩) instr := by
  obtain ⟨statement, named, quiet, short, parsed⟩ := spelling
  obtain ⟨body, shape, calm, few⟩ := spelled_body statement.opcode statement.operands.1 statement.operands.2 named quiet short
  have name := mnemonic_quiet statement.opcode
  have line : statement.line ⟨0, 0, 0, 0, named.toNat, true⟩ = (mnemonic statement.opcode ++ body) ++ ['\n'] := by
    rw [Statement.line, shape, List.append_assoc]
  have whole : (mnemonic statement.opcode ++ body).all isQuiet = true := by rw [List.all_append, name.1, calm]; rfl
  have same : visible (statement.line ⟨0, 0, 0, 0, named.toNat, true⟩) = statement.line ⟨0, 0, 0, 0, named.toNat, true⟩ := by
    rw [line]
    exact visible_quiet _ _ whole rfl
  refine ⟨⟨_, line, quiet_ended _ whole⟩, ?_, fun _ => ⟨statement, _, same⟩, ?_, fun labels known => ?_⟩
  · rw [line, List.length_append, List.length_append, List.length_singleton]
    have room : maxLen = 256 := rfl
    omega
  · have filled : isEmpty (visible (statement.line ⟨0, 0, 0, 0, named.toNat, true⟩)) = false := by
      rw [same, Statement.line, shape]
      exact mnemonic_not_empty statement.opcode 0 _
    refine (kind_instruction_iff _).mpr ⟨by rw [has_text_visible, filled]; rfl, ?_, filled⟩
    rw [same, line]
    refine find_missing ':' _ fun member => ?_
    obtain inside | last := List.mem_append.mp member
    · exact Bool.false_ne_true ((quiet_not _ whole ':' inside).2.1.symm.trans rfl)
    · exact absurd (List.mem_singleton.mp last) (by decide)
  · rw [same]
    exact parsed labels known

theorem label_line_ended (address : Nat) : Ended (labelLine address) ∧ (labelLine address).length < maxLen := by
  refine ⟨⟨nameOf address ++ [':'], by rw [labelLine, List.append_assoc]; rfl, ?_⟩, ?_⟩
  · rw [List.all_append, quiet_ended _ (name_of_quiet address)]
    rfl
  · have short := name_of_length address
    have room : maxLen = 256 := rfl
    rw [labelLine, List.length_append, List.length_cons, List.length_cons, List.length_nil]
    omega

def numbered : Nat → List Text → List Text
  | address, [] => [labelLine address]
  | address, line :: lines => labelLine address :: line :: numbered (address + 1) lines

theorem numbered_member (address : Nat) (lines : List Text) (line : Text) (member : line ∈ numbered address lines) :
    (∃ other, address ≤ other ∧ other ≤ address + lines.length ∧ line = labelLine other) ∨ line ∈ lines := by
  induction lines generalizing address with
  | nil => exact Or.inl ⟨address, Nat.le_refl _, Nat.le_refl _, List.mem_singleton.mp member⟩
  | cons head lines ih =>
      obtain rfl | member := List.mem_cons.mp member
      · exact Or.inl ⟨address, Nat.le_refl _, Nat.le_add_right _ _, rfl⟩
      · obtain rfl | member := List.mem_cons.mp member
        · exact Or.inr List.mem_cons_self
        · obtain ⟨other, low, high, rfl⟩ | inside := ih (address + 1) member
          · rw [List.length_cons]
            exact Or.inl ⟨other, by omega, by omega, rfl⟩
          · exact Or.inr (List.mem_cons_of_mem _ inside)

theorem numbered_length (address : Nat) (lines : List Text) : (numbered address lines).length = 2 * lines.length + 1 := by
  induction lines generalizing address with
  | nil => rfl
  | cons line lines ih =>
      rw [numbered, List.length_cons, List.length_cons, ih, List.length_cons]
      omega

theorem label_line_not_instruction (address : Nat) : kindOf (labelLine address) ≠ .instruction := by
  rw [label_line_kind]
  exact fun same => (by cases same)

theorem numbered_whole (address : Nat) (lines : List Text) (kinds : ∀ line ∈ lines, kindOf line = .instruction) (key : Text) :
    Whole (numbered address lines) key := by
  refine whole_of_short _ key fun line member written defines => ?_
  obtain ⟨here, _, _, rfl⟩ | inside := numbered_member address lines line member
  · obtain rfl := Option.some.inj ((label_line_key here).symm.trans defines)
    exact Nat.le_trans (name_of_length here) (by decide)
  · cases (label_key_kind line written defines).symm.trans (kinds line inside)

theorem numbered_emitted (address : Nat) (lines : List Text) (kinds : ∀ line ∈ lines, kindOf line = .instruction) :
    emitted kindOf (numbered address lines) = lines := by
  induction lines generalizing address with
  | nil => exact emitted_other kindOf _ [] (label_line_not_instruction address)
  | cons line lines ih =>
      rw [numbered, emitted_other kindOf _ _ (label_line_not_instruction address),
        emitted_instruction kindOf line _ (kinds line List.mem_cons_self),
        ih (address + 1) fun other member => kinds other (List.mem_cons_of_mem _ member)]

theorem numbered_address (address : Nat) (lines : List Text) (kinds : ∀ line ∈ lines, kindOf line = .instruction)
    (small : address + lines.length < 2 ^ 64) (asked : Nat) (low : address ≤ asked) (high : asked ≤ address + lines.length) :
    (resolve kindOf (numbered address lines)).address (nameOf asked) = some (asked - address) := by
  induction lines generalizing address with
  | nil =>
      obtain rfl : asked = address := Nat.le_antisymm high low
      rw [Nat.sub_self]
      exact address_last kindOf [] [] _ _ (label_line_kind asked) (fun _ member => absurd member List.not_mem_nil)
  | cons line lines ih =>
      rw [List.length_cons] at small high
      have rest (other : Text) (member : other ∈ lines) : kindOf other = .instruction := kinds other (List.mem_cons_of_mem _ member)
      have here : kindOf line = .instruction := kinds line List.mem_cons_self
      have split : numbered address (line :: lines) = [labelLine address, line] ++ numbered (address + 1) lines := rfl
      rw [split, address_joined, emitted_other kindOf _ _ (label_line_not_instruction address),
        emitted_instruction kindOf line [] here]
      by_cases first : asked = address
      · have missing : (resolve kindOf (numbered (address + 1) lines)).address (nameOf asked) = none := by
          refine address_missing kindOf _ _ fun other member same => ?_
          obtain ⟨later, after, bound, rfl⟩ | inside := numbered_member (address + 1) lines other member
          · rw [label_line_kind] at same
            have equal := name_of_injective later asked (by omega) (by omega) (Kind.label.inj same)
            omega
          · rw [rest other inside] at same
            cases same
        rw [missing, Option.map_none, Option.none_or, first, Nat.sub_self]
        exact address_last kindOf [] [line] _ _ (label_line_kind address) fun later member same => by
          rw [List.mem_singleton.mp member, here] at same
          cases same
      · rw [ih (address + 1) rest (by omega) (by omega) (by omega), Option.map_some, Option.some_or]
        congr 1
        rw [List.length_cons, emitted, List.filter_nil, List.length_nil]
        omega

theorem source_lines_ended (lines : List Text) (ended : ∀ line ∈ lines, Ended line) : sourceLines lines.flatten = lines := by
  induction lines with
  | nil => rfl
  | cons line lines ih =>
      obtain ⟨body, rfl, passes⟩ := ended line List.mem_cons_self
      have each (c : Char) (member : c ∈ body) : (c == '\n') = false :=
        beq_eq_false_iff_ne.mpr (bne_iff_ne.mp (List.all_eq_true.mp passes c member))
      rw [List.flatten_cons, List.append_assoc, List.singleton_append, source_lines_line body _ each,
        ih fun other member => ended other (List.mem_cons_of_mem _ member)]

theorem flatten_length (lines : List Text) (short : ∀ line ∈ lines, line.length < maxLen) :
    lines.flatten.length ≤ lines.length * maxLen := by
  induction lines with
  | nil => exact Nat.zero_le _
  | cons line lines ih =>
      have first := short line List.mem_cons_self
      have rest := ih fun other member => short other (List.mem_cons_of_mem _ member)
      rw [List.flatten_cons, List.length_append, List.length_cons, Nat.add_mul, Nat.one_mul]
      omega

theorem spelled_lines (n : Nat) (code : List Instruction) (plain : ∀ instr ∈ code, Plain n instr) :
    ∃ lines, List.Forall₂ (Spells n) lines code := by
  induction code with
  | nil => exact ⟨[], .nil⟩
  | cons instr code ih =>
      obtain ⟨lines, rest⟩ := ih fun other member => plain other (List.mem_cons_of_mem _ member)
      obtain ⟨spelling⟩ := plain_spelled n instr (plain instr List.mem_cons_self)
      exact ⟨_ :: lines, .cons (spelling_spells n instr spelling) rest⟩

end Listing

section Programs

variable (code : List Instruction)

theorem plain_target (n : Nat) (instr : Instruction) (plain : Plain n instr) (op : Opcode) (jumps : op.isBranch = true)
    (same : instr.opcode = op.code) : instr.operand2.toNat ≤ n := by
  have apart (other : Opcode) (two : takesTwo other = true) (equal : other.code = op.code) : False := by
    rw [opcode_code_injective other op equal, takesTwo, jumps] at two
    cases two
  cases plain with
  | registers other two _ _ => exact (apart other two same).elim
  | literal other two _ _ => exact (apart other two same).elim
  | load _ _ => exact (apart .mov rfl same).elim
  | store _ _ => exact (apart .mov rfl same).elim
  | negate _ _ =>
      rw [← opcode_code_injective .not op same] at jumps
      cases jumps
  | branch _ _ _ inside => exact inside

theorem orderly_plain (lines : List Text) (orderly : Orderly lines) (one : ∀ line ∈ lines, OneLine line)
    (few : lines.length < 2 ^ 64) (made : assembled lines = some (code ++ [haltInstr])) :
    ∀ instr ∈ code, Plain code.length instr := by
  obtain ⟨instrs, compiled, whole⟩ := Option.map_eq_some_iff.mp made
  obtain rfl := List.append_cancel_right whole
  have each := (compile_all_iff _ _ _).mp compiled
  intro instr member
  obtain ⟨line, emits, compiles⟩ := related_of_mem _ _ _ each.flip instr member
  obtain ⟨inside, instruction⟩ := List.mem_filter.mp emits
  have kind := of_decide_eq_true instruction
  obtain ⟨statement, layout, same⟩ := orderly.formed line inside kind
  have parsed := (compiles_iff _ _ _).mp compiles
  rw [same] at parsed
  refine statement_plain _ layout instrs.length statement [] instr parsed fun op jumps coded => ?_
  have meaning := compiled_branch _ line (visible_one_line line (one line inside)) instr compiles
  cases branches : branchLabel line with
  | none =>
      rw [branches] at meaning
      exact absurd coded (meaning op jumps)
  | some label =>
      rw [branches] at meaning
      obtain ⟨value, found, less⟩ := table_defined lines few label (orderly.labelled line inside kind label branches)
      rw [meaning.1, found, Option.getD_some, ← each.length_eq]
      exact less

theorem plain_orderly (few : code.length < 2 ^ 32) (lines : List Text) (spelled : List.Forall₂ (Spells code.length) lines code)
    (plain : ∀ instr ∈ code, Plain code.length instr) :
    Orderly (numbered 0 lines) ∧ assembled (numbered 0 lines) = some (code ++ [haltInstr]) ∧
      ∀ line ∈ numbered 0 lines, Ended line := by
  have length := spelled.length_eq
  have known (line : Text) (member : line ∈ lines) : ∃ instr ∈ code, Spells code.length line instr :=
    related_of_mem _ _ _ spelled line member
  have kinds (line : Text) (member : line ∈ lines) : kindOf line = .instruction := by
    obtain ⟨instr, _, spells⟩ := known line member
    exact spells.kind
  have table (address : Nat) (bound : address ≤ code.length) :
      get (firstPass (numbered 0 lines)).labels (nameOf address) = some (BitVec.ofNat 64 address) := by
    rw [((first_pass_follows _).whole _ (numbered_whole 0 lines kinds _)).2, numbered_address 0 lines kinds (by omega) address (Nat.zero_le _) (by omega),
      Option.map_some, Nat.sub_zero]
  have compiles (line : Text) (instr : Instruction) (spells : Spells code.length line instr) :
      Compiles (firstPass (numbered 0 lines)).labels line instr := (compiles_iff _ _ _).mpr (spells.parsed _ table)
  have ended (line : Text) (member : line ∈ numbered 0 lines) : Ended line ∧ line.length < maxLen := by
    obtain ⟨address, _, _, rfl⟩ | inside := numbered_member 0 lines line member
    · exact label_line_ended address
    · obtain ⟨instr, _, spells⟩ := known line inside
      exact ⟨spells.ended, spells.short⟩
  have instructions (line : Text) (member : line ∈ numbered 0 lines) (kind : kindOf line = .instruction) : line ∈ lines := by
    obtain ⟨address, _, _, rfl⟩ | inside := numbered_member 0 lines line member
    · exact absurd kind (label_line_not_instruction address)
    · exact inside
  refine ⟨⟨fun line member => (ended line member).2, fun line member kind => ?_, fun line member kind label branches => ?_⟩, ?_,
    fun line member => (ended line member).1⟩
  · obtain ⟨instr, _, spells⟩ := known line (instructions line member kind)
    exact spells.formed kind
  · obtain ⟨instr, inside, spells⟩ := known line (instructions line member kind)
    obtain ⟨body, same, passes⟩ := spells.ended
    have one : OneLine line := by
      rw [same]
      intro c inner
      rw [List.dropLast_concat] at inner
      exact bne_iff_ne.mp (List.all_eq_true.mp passes c inner)
    have meaning := compiled_branch _ line (visible_one_line line one) instr (compiles line instr spells)
    rw [branches] at meaning
    obtain ⟨operand, op, jumps, coded⟩ := meaning
    have target := plain_target code.length instr (plain instr inside) op jumps coded
    by_contra missing
    rw [table_undefined _ label missing, Option.getD_none] at operand
    rw [operand, uint64Max, BitVec.toNat_allOnes] at target
    omega
  · rw [assembled, numbered_emitted 0 lines kinds,
      (compile_all_iff _ _ _).mpr (spelled.imp fun line instr spells => compiles line instr spells), Option.map_some]

-- What the assembler can make of orderly sources is exactly what it promises to
-- understand: every list of such instructions is some source's program.
theorem programs_expressible_iff (few : code.length < 2 ^ 32) :
    (∃ source : SourceFile, Orderly (sourceLines source.bytes) ∧ ∀ memory, Allocates memory →
      ∃ program, parseAssembly memory (some source) = .ok program ∧ program.instructions = code ++ [haltInstr]) ↔
      ∀ instr ∈ code, Plain code.length instr := by
  constructor
  · rintro ⟨source, orderly, returns⟩
    obtain ⟨program, returned, instructions⟩ := returns (fun _ => ⟨true, true, []⟩) fun _ => ⟨rfl, rfl⟩
    have made := assembled_reads _ source program returned
    have one := reads_one_line source.bytes
    rw [reads_short source.bytes orderly.short] at made one
    rw [instructions] at made
    exact orderly_plain code _ orderly one
      (Nat.lt_of_le_of_lt (source_lines_length source.bytes) (Nat.lt_trans source.size (by decide))) made
  · intro plain
    obtain ⟨lines, spelled⟩ := spelled_lines code.length code plain
    obtain ⟨orderly, made, ended⟩ := plain_orderly code few lines spelled plain
    have size : (numbered 0 lines).flatten.length < 2 ^ 63 := by
      have bound := flatten_length _ orderly.short
      have room : maxLen = 256 := rfl
      rw [numbered_length, spelled.length_eq, room] at bound
      omega
    have read := source_lines_ended _ ended
    refine ⟨⟨(numbered 0 lines).flatten, size⟩, by rw [read]; exact orderly, fun memory allocates => ?_⟩
    have reads : reads (maxLen - 2) (numbered 0 lines).flatten = numbered 0 lines := by
      rw [reads_short _ (by rw [read]; exact orderly.short), read]
    obtain ⟨program, returned⟩ := (assembled_reads_iff memory ⟨(numbered 0 lines).flatten, size⟩ allocates).mpr (by
      rw [reads, made]
      rfl)
    have same := assembled_reads memory _ program returned
    rw [reads, made] at same
    exact ⟨program, returned, (Option.some.inj same).symm⟩

theorem programs_expressible_iff_loop :
    ∃ source : SourceFile, Orderly (sourceLines source.bytes) ∧ ∀ memory, Allocates memory →
      ∃ program, parseAssembly memory (some source) = .ok program ∧
        program.instructions = [⟨2, 2, Opcode.not.code, Mode.register.code⟩, ⟨0, uint8Max, Opcode.jmp.code, Mode.label.code⟩,
          haltInstr] := by
  refine (programs_expressible_iff [⟨2, 2, Opcode.not.code, Mode.register.code⟩,
    ⟨0, uint8Max, Opcode.jmp.code, Mode.label.code⟩] (by decide)).mpr fun instr member => ?_
  obtain rfl | last := List.mem_cons.mp member
  · exact .negate 2 true
  · rw [List.mem_singleton.mp last]
    exact .branch .jmp rfl 0 (Nat.zero_le _)

end Programs

end CpuEmulator.Assembler
