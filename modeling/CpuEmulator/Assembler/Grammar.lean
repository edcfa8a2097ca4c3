import CpuEmulator.Assembler.Operands
import CpuEmulator.Assembler.Split

set_option autoImplicit false

namespace CpuEmulator.Assembler

def takesTwo (op : Opcode) : Bool := !op.isBranch && op != .not

structure Label where
  name : Text
  isWord : IsWord name
  colonless : ':' ∉ name

inductive Statement where
  | registers (op : { op // takesTwo op = true }) (first second : Fin 4)
  | literal (op : { op // takesTwo op = true }) (first : Fin 4) (value : Numeral 10)
  | load (target : Fin 4) (address : Address)
  | store (address : Address) (source : Fin 4)
  | negate (register : Fin 4)
  | branch (op : { op // Opcode.isBranch op = true }) (label : Label)

def Statement.opcode : Statement → Opcode
  | .registers op _ _ => op.val
  | .literal op _ _ => op.val
  | .load _ _ => .mov
  | .store _ _ => .mov
  | .negate _ => .not
  | .branch op _ => op.val

def Statement.operands : Statement → Text × Option Text
  | .registers _ first second => (registerName first, some (registerName second))
  | .literal _ first value => (registerName first, some value.digits)
  | .load target address => (registerName target, some address.text)
  | .store address source => (address.text, some (registerName source))
  | .negate register => (registerName register, none)
  | .branch _ label => (label.name, none)

def Statement.label : Statement → Option Label
  | .branch _ label => some label
  | _ => none

-- Numbers of spaces; gap counts those beyond the one that ends the mnemonic.
structure Layout where
  indent : Nat
  gap : Nat
  beforeComma : Nat
  afterComma : Nat
  trailing : Nat
  newline : Bool
deriving DecidableEq, Repr

def ending (newline : Bool) : Text := if newline then ['\n'] else []

def Layout.tail (layout : Layout) : Text := spaces layout.trailing ++ ending layout.newline

def Layout.operands (layout : Layout) (first : Text) : Option Text → Text
  | none => first
  | some second => first ++ (spaces layout.beforeComma ++ ',' :: (spaces layout.afterComma ++ second))

def Layout.line (layout : Layout) (op : Opcode) (first : Text) (second : Option Text) : Text :=
  spaces layout.indent ++ (mnemonic op ++ ' ' :: (spaces layout.gap ++ (layout.operands first second ++ layout.tail)))

def Statement.line (statement : Statement) (layout : Layout) : Text :=
  layout.line statement.opcode statement.operands.1 statement.operands.2

-- What a statement means when its labels have these targets. The first operand
-- of NOT and of a branch is read by nobody.
def Statement.Denotes (target : Text → U64) (statement : Statement) (instr : Instruction) : Prop :=
  match statement with
  | .registers op first second =>
      instr = ⟨BitVec.ofNat 64 second.val, BitVec.ofNat 8 first.val, op.val.code, Mode.register.code⟩
  | .literal op first value => instr = ⟨value.value, BitVec.ofNat 8 first.val, op.val.code, Mode.immediate.code⟩
  | .load target address => instr = ⟨address.value, BitVec.ofNat 8 target.val, Opcode.mov.code, Mode.directLoad.code⟩
  | .store address source => instr = ⟨address.value, BitVec.ofNat 8 source.val, Opcode.mov.code, Mode.directStore.code⟩
  | .negate register =>
      instr.opcode = Opcode.not.code ∧ instr.mode = Mode.register.code ∧ instr.operand2 = BitVec.ofNat 64 register.val
  | .branch op label =>
      instr.opcode = op.val.code ∧ instr.mode = Mode.label.code ∧ instr.operand2 = target label.name

section Commas

theorem replace_comma_at (front back rest : Text) (first : ',' ∉ front) :
    replaceComma ⟨front ++ ',' :: back, rest⟩ = ⟨front ++ ' ' :: back, rest⟩ := by
  have skipped := find_missing ',' front first
  have found : (front ++ ',' :: back).findIdx? (· == ',') = some front.length := by
    rw [List.findIdx?_append, skipped, List.findIdx?_cons, beq_self_eq_true, if_pos rfl, Option.none_or, Option.map_some,
      Nat.zero_add]
  simp only [replaceComma, found, List.set_append_right _ _ (Nat.le_refl _), Nat.sub_self, List.set_cons_zero]

theorem replace_comma_nowhere (text rest : Text) (missing : ',' ∉ text) : replaceComma ⟨text, rest⟩ = ⟨text, rest⟩ := by
  simp only [replaceComma, find_missing ',' text missing]

theorem not_mem_spaces (c : Char) (n : Nat) (other : c ≠ ' ') : c ∉ spaces n := fun member =>
  other (List.eq_of_mem_replicate member)

theorem not_mem_ending (c : Char) (newline : Bool) (other : c ≠ '\n') : c ∉ ending newline := by
  cases newline with
  | true => exact fun member => other (List.mem_singleton.mp member)
  | false => exact List.not_mem_nil

theorem not_mem_tail (layout : Layout) (c : Char) (space : c ≠ ' ') (newline : c ≠ '\n') : c ∉ layout.tail := fun member =>
  (List.mem_append.mp member).elim (not_mem_spaces c _ space) (not_mem_ending c _ newline)

theorem spaces_join (m n : Nat) (text : Text) : spaces m ++ ' ' :: (spaces n ++ text) = ' ' :: (spaces (m + n) ++ text) := by
  induction m with
  | zero => rw [Nat.zero_add]; rfl
  | succ m ih =>
      rw [spaces, List.replicate_succ, List.cons_append, ← spaces, ih, Nat.succ_add, spaces, spaces, List.replicate_succ,
        List.cons_append]

end Commas

section Fields

variable (layout : Layout) (op : Opcode) (rest : Text)

theorem word_spaceless (word : Text) (isWord : IsWord word) : Spaceless word := word_not word isWord ' ' rfl

theorem word_commaless (word : Text) (isWord : IsWord word) : ',' ∉ word := fun member =>
  word_not word isWord ',' rfl ',' member rfl

theorem word_in_field (word : Text) (isWord : IsWord word) : ∀ c ∈ word, endsField c = false := fun c member => by
  rw [endsField, beq_eq_false_iff_ne.mpr (word_not word isWord ' ' rfl c member),
    beq_eq_false_iff_ne.mpr (word_not word isWord '\n' rfl c member), Bool.or_false]

theorem ending_stops (newline : Bool) : ending newline = [] ∨ ∃ c after, ending newline = c :: after ∧ endsField c = true := by
  cases newline with
  | true => exact Or.inr ⟨'\n', [], rfl, rfl⟩
  | false => exact Or.inl rfl

theorem tail_stops : layout.tail = [] ∨ ∃ c after, layout.tail = c :: after ∧ endsField c = true := by
  rw [Layout.tail]
  cases layout.trailing with
  | zero => exact ending_stops layout.newline
  | succ t => exact Or.inr ⟨' ', spaces t ++ ending layout.newline, rfl, rfl⟩

theorem field_word (word tail : Text) (isWord : IsWord word)
    (stops : tail = [] ∨ ∃ c after, tail = c :: after ∧ endsField c = true) : field (word ++ tail) = some word := by
  rw [field_break word tail (word_in_field word isWord) stops, if_neg isWord.filled]

theorem split_two_fields (first second : Text) (word1 : IsWord first) (filled2 : second ≠ [])
    (inField2 : ∀ c ∈ second, endsField c = false) :
    splitByChar (replaceComma ⟨layout.line op first (some second), rest⟩) ' ' =
      some ⟨some (mnemonic op), some first, some second⟩ := by
  have front : ',' ∉ spaces layout.indent ++ (mnemonic op ++ ' ' :: (spaces layout.gap ++ (first ++ spaces layout.beforeComma))) := by
    simp only [List.mem_append, List.mem_cons, not_or]
    exact ⟨not_mem_spaces _ _ (by decide), word_commaless _ (mnemonic_word op), by decide, not_mem_spaces _ _ (by decide),
      word_commaless first word1, not_mem_spaces _ _ (by decide)⟩
  have spaceless2 : Spaceless second := fun c member =>
    beq_eq_false_iff_ne.mp (Bool.or_eq_false_iff.mp (inField2 c member)).1
  have replaced := replace_comma_at _ (spaces layout.afterComma ++ (second ++ layout.tail)) rest front
  simp only [Layout.line, Layout.operands, List.append_assoc, List.cons_append] at replaced ⊢
  rw [replaced, spaces_join, split_three_words _ _ _ _ _ _ _ (mnemonic_word op).filled (word_spaceless _ (mnemonic_word op))
    word1.filled (word_spaceless first word1) (word_head second _ filled2 spaceless2),
    field_break second layout.tail inField2 (tail_stops layout), if_neg filled2]

theorem split_two_operands (first second : Text) (word1 : IsWord first) (word2 : IsWord second) :
    splitByChar (replaceComma ⟨layout.line op first (some second), rest⟩) ' ' =
      some ⟨some (mnemonic op), some first, some second⟩ :=
  split_two_fields layout op rest first second word1 word2.filled (word_in_field second word2)

-- A lone operand lands in the second part when spaces follow it, else in the third.
theorem split_one_operand (word : Text) (isWord : IsWord word) :
    ∃ parts, splitByChar (replaceComma ⟨layout.line op word none, rest⟩) ' ' = some parts ∧
      parts.part1 = some (mnemonic op) ∧ (parts.part2 = some word ∧ parts.part3 = none ∨ parts.part2 = none ∧ parts.part3 = some word) := by
  have missing : ',' ∉ spaces layout.indent ++ (mnemonic op ++ ' ' :: (spaces layout.gap ++ (word ++ layout.tail))) := by
    simp only [List.mem_append, List.mem_cons, not_or]
    exact ⟨not_mem_spaces _ _ (by decide), word_commaless _ (mnemonic_word op), by decide, not_mem_spaces _ _ (by decide),
      word_commaless word isWord, not_mem_tail layout ',' (by decide) (by decide)⟩
  have name := mnemonic_word op
  rw [Layout.line, Layout.operands, replace_comma_nowhere _ rest missing, Layout.tail]
  cases layout.trailing with
  | zero =>
      have spaceless : Spaceless (word ++ ending layout.newline) := fun c member same =>
        (List.mem_append.mp (same ▸ member)).elim (fun inside => word_spaceless word isWord ' ' inside rfl)
          (not_mem_ending ' ' layout.newline (by decide))
      refine ⟨⟨some (mnemonic op), none, some word⟩, ?_, rfl, Or.inr ⟨rfl, rfl⟩⟩
      have split := split_two_words layout.indent layout.gap (mnemonic op) rest (word ++ ending layout.newline) name.filled
        (word_spaceless _ name) spaceless
      rw [field_word word _ isWord (ending_stops layout.newline)] at split
      exact split
  | succ t =>
      have stops : (ending layout.newline).head? ≠ some ' ' := by
        cases layout.newline <;> decide
      have nothing : field (ending layout.newline) = none := by
        cases layout.newline <;> rfl
      refine ⟨⟨some (mnemonic op), some word, none⟩, ?_, rfl, Or.inl ⟨rfl, rfl⟩⟩
      have split := split_three_words layout.indent layout.gap (mnemonic op) rest t word (ending layout.newline) name.filled
        (word_spaceless _ name) isWord.filled (word_spaceless word isWord) stops
      rw [nothing] at split
      exact split

end Fields

section Parsing

variable (layout : Layout) (labels : Labels) (rest : Text)

theorem parse_two_operands (op : Opcode) (two : takesTwo op = true) (first second : Text) (word1 : IsWord first)
    (word2 : IsWord second) :
    parseLine ⟨layout.line op first (some second), rest⟩ labels =
      some (defaultMode (parseOperand1 (parseOperand2 ⟨uint64Max, uint8Max, op.code, uint8Max⟩ second) first)) := by
  have jumps : op.isBranch = false := by cases op <;> first | rfl | exact absurd two (by decide)
  have negates : op ≠ .not := by rintro rfl; exact absurd two (by decide)
  simp only [parseLine, split_two_operands layout op rest first second word1 word2, Option.bind_some, operation_of_mnemonic,
    jumps, Bool.false_eq_true, if_false, if_neg negates, parseOperands, Option.some_or, Option.map_some]

theorem parse_registers (op : Opcode) (two : takesTwo op = true) (first second : Fin 4) :
    parseLine ⟨layout.line op (registerName first) (some (registerName second)), rest⟩ labels =
      some ⟨BitVec.ofNat 64 second.val, BitVec.ofNat 8 first.val, op.code, Mode.register.code⟩ := by
  rw [parse_two_operands layout labels rest op two _ _ (register_word first) (register_word second)]
  simp only [parseOperand2, parseOperand1, register_of_name, defaultMode, if_true]

theorem parse_literal (op : Opcode) (two : takesTwo op = true) (first : Fin 4) (value : Numeral 10) :
    parseLine ⟨layout.line op (registerName first) (some value.digits), rest⟩ labels =
      some ⟨value.value, BitVec.ofNat 8 first.val, op.code, Mode.immediate.code⟩ := by
  rw [parse_two_operands layout labels rest op two _ _ (register_word first) (numeral_word 10 (by decide) value)]
  have chosen : Mode.immediate.code ≠ uint8Max := by decide
  simp only [parseOperand2, parseOperand1, register_of_name, literal_not_register, literal_not_bracketed, Bool.false_eq_true,
    if_false, parse_int_numeral, defaultMode, if_neg chosen]

theorem parse_load (target : Fin 4) (address : Address) :
    parseLine ⟨layout.line .mov (registerName target) (some address.text), rest⟩ labels =
      some ⟨address.value, BitVec.ofNat 8 target.val, Opcode.mov.code, Mode.directLoad.code⟩ := by
  rw [parse_two_operands layout labels rest .mov rfl _ _ (register_word target) (address_word address)]
  have chosen : Mode.directLoad.code ≠ uint8Max := by decide
  simp only [parseOperand2, parseOperand1, register_of_name, address_not_register, address_bracketed, address_unbracketed,
    strtoull_address, if_true, defaultMode, if_neg chosen]

theorem parse_store (address : Address) (source : Fin 4) :
    parseLine ⟨layout.line .mov address.text (some (registerName source)), rest⟩ labels =
      some ⟨address.value, BitVec.ofNat 8 source.val, Opcode.mov.code, Mode.directStore.code⟩ := by
  rw [parse_two_operands layout labels rest .mov rfl _ _ (address_word address) (register_word source)]
  have chosen : Mode.directStore.code ≠ uint8Max := by decide
  have narrow : ∀ reg : Fin 4, (BitVec.ofNat 64 reg.val).setWidth 8 = BitVec.ofNat 8 reg.val := by decide
  simp only [parseOperand2, parseOperand1, register_of_name, address_not_register, address_bracketed, address_unbracketed,
    strtoull_address, if_true, narrow, defaultMode, if_neg chosen]

theorem parse_negate (register : Fin 4) :
    ∃ instr, parseLine ⟨layout.line .not (registerName register) none, rest⟩ labels = some instr ∧
      instr.opcode = Opcode.not.code ∧ instr.mode = Mode.register.code ∧ instr.operand2 = BitVec.ofNat 64 register.val := by
  obtain ⟨parts, split, operation, place⟩ := split_one_operand layout .not rest (registerName register) (register_word register)
  have chosen : Mode.register.code ≠ uint8Max := by decide
  obtain ⟨part2, part3⟩ | ⟨part2, part3⟩ := place
  · refine ⟨⟨BitVec.ofNat 64 register.val, BitVec.ofNat 8 register.val, Opcode.not.code, Mode.register.code⟩, ?_, rfl, rfl, rfl⟩
    simp only [parseLine, split, operation, Option.bind_some, operation_of_mnemonic, Opcode.isBranch, Bool.false_eq_true, if_false,
      if_true, parseOperands, part2, part3, Option.none_or, Option.map_some, parseOperand2, parseOperand1, register_of_name,
      defaultMode, if_neg chosen]
  · refine ⟨⟨BitVec.ofNat 64 register.val, uint8Max, Opcode.not.code, Mode.register.code⟩, ?_, rfl, rfl, rfl⟩
    simp only [parseLine, split, operation, Option.bind_some, operation_of_mnemonic, Opcode.isBranch, Bool.false_eq_true, if_false,
      if_true, parseOperands, part2, part3, Option.some_or, Option.map_some, parseOperand2, register_of_name]

theorem parse_branch (op : Opcode) (jumps : op.isBranch = true) (label : Text) (isWord : IsWord label) :
    parseLine ⟨layout.line op label none, rest⟩ labels =
      some ⟨(get labels label).getD uint64Max, uint8Max, op.code, Mode.label.code⟩ := by
  obtain ⟨parts, split, operation, place⟩ := split_one_operand layout op rest label isWord
  have operand : parts.part2.or parts.part3 = some label := by
    obtain ⟨part2, part3⟩ | ⟨part2, part3⟩ := place
    · rw [part2, Option.some_or]
    · rw [part2, part3, Option.none_or]
  simp only [parseLine, split, operation, Option.bind_some, operation_of_mnemonic, jumps, if_true, parseBranch, operand,
    Option.map_some]

theorem parse_statement (statement : Statement) :
    ∃ instr, parseLine ⟨statement.line layout, rest⟩ labels = some instr ∧
      statement.Denotes (fun label => (get labels label).getD uint64Max) instr := by
  cases statement with
  | registers op first second => exact ⟨_, parse_registers layout labels rest op.val op.property first second, rfl⟩
  | literal op first value => exact ⟨_, parse_literal layout labels rest op.val op.property first value, rfl⟩
  | load target address => exact ⟨_, parse_load layout labels rest target address, rfl⟩
  | store address source => exact ⟨_, parse_store layout labels rest address source, rfl⟩
  | negate register => exact parse_negate layout labels rest register
  | branch op label => exact ⟨_, parse_branch layout labels rest op.val op.property label.name label.isWord, rfl, rfl, rfl⟩

theorem denotes_target (statement : Statement) (instr : Instruction) (target other : Text → U64)
    (same : ∀ label ∈ statement.label, other label.name = target label.name) (denotes : statement.Denotes target instr) :
    statement.Denotes other instr := by
  cases statement with
  | branch op label => exact ⟨denotes.1, denotes.2.1, denotes.2.2.trans (same label rfl).symm⟩
  | registers op first second => exact denotes
  | literal op first value => exact denotes
  | load target address => exact denotes
  | store address source => exact denotes
  | negate register => exact denotes

-- parse_line understands every line of the grammar, whatever lies behind the line in its array.
theorem parse_line_accepts_grammar (statement : Statement) (layout : Layout) (labels : Labels) (rest : Text) (target : Text → U64)
    (known : ∀ label ∈ statement.label, get labels label.name = some (target label.name)) :
    ∃ instr, parseLine ⟨statement.line layout, rest⟩ labels = some instr ∧ statement.Denotes target instr := by
  obtain ⟨instr, parsed, denotes⟩ := parse_statement layout labels rest statement
  refine ⟨instr, parsed, denotes_target statement instr _ target (fun label member => ?_) denotes⟩
  rw [known label member, Option.getD_some]

theorem parse_line_accepts_grammar_jump :
    ∃ instr, parseLine ⟨[' ', 'J', 'M', 'P', ' ', 'L', ' ', ' ', '\n'], []⟩ (put hashMakeTable ['L'] 3) = some instr ∧
      instr.opcode = Opcode.jmp.code ∧ instr.mode = Mode.label.code ∧ instr.operand2 = 3 :=
  parse_line_accepts_grammar (.branch ⟨.jmp, rfl⟩ ⟨['L'], ⟨by decide, by decide⟩, by decide⟩) ⟨1, 0, 0, 0, 2, true⟩
    (put hashMakeTable ['L'] 3) [] (fun _ => 3) (by rintro label ⟨⟩; decide +kernel)

end Parsing

end CpuEmulator.Assembler
