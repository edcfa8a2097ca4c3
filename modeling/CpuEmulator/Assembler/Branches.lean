import CpuEmulator.Assembler.TwoPasses
import CpuEmulator.Driver.Execute

set_option autoImplicit false

namespace CpuEmulator.Assembler

open Library.Addresses

section BranchText

def operationText (text : Text) : Text := (text.dropWhile (· == ' ')).takeWhile (fun c => !(c == ' '))

def operandText (text : Text) : Text :=
  (((text.dropWhile (· == ' ')).dropWhile (fun c => !(c == ' '))).dropWhile (· == ' ')).takeWhile (fun c => !endsField c)

def branchLabel (line : Text) : Option Text :=
  let text := (replaceComma ⟨visible line, []⟩).text
  ((operationOf (operationText text)).filter Opcode.isBranch).map (fun _ => operandText text)

theorem drop_spaces (k : Nat) (after : Text) (stops : after.head? ≠ some ' ') :
    (spaces k ++ after).dropWhile (· == ' ') = after := by
  induction k with
  | zero =>
      cases after with
      | nil => rfl
      | cons c after =>
          have other : (c == ' ') = false := beq_eq_false_iff_ne.mpr (fun same => stops (congrArg some same))
          show (c :: after).dropWhile _ = _
          rw [List.dropWhile_cons, other, if_neg Bool.false_ne_true]
  | succ k ih => exact ih

theorem drop_word (word tail : Text) (spaceless : Spaceless word) :
    (word ++ ' ' :: tail).dropWhile (fun c => !(c == ' ')) = ' ' :: tail := by
  rw [List.dropWhile_append_of_pos (fun c member => by rw [spaceless_passes word spaceless c member]; rfl)]
  rfl

theorem word_text (a : Nat) (word tail : Text) (filled : word ≠ []) (spaceless : Spaceless word) :
    operationText (spaces a ++ (word ++ ' ' :: tail)) = word := by
  rw [operationText, drop_spaces a _ (word_head word _ filled spaceless)]
  exact take_while_break (· == ' ') word _ (spaceless_passes word spaceless) (Or.inr ⟨' ', tail, rfl, rfl⟩)

theorem second_text (a b : Nat) (word after : Text) (filled : word ≠ []) (spaceless : Spaceless word)
    (stops : after.head? ≠ some ' ') :
    operandText (spaces a ++ (word ++ ' ' :: (spaces b ++ after))) = after.takeWhile (fun c => !endsField c) := by
  rw [operandText, drop_spaces a _ (word_head word _ filled spaceless), drop_word word _ spaceless]
  exact congrArg (List.takeWhile _) (drop_spaces (b + 1) after stops)

theorem one_line_front (front back : Text) (x : Char) (one : OneLine (front ++ x :: back)) : ∀ c ∈ front, c ≠ '\n' := by
  intro c member
  refine one c ?_
  rw [List.dropLast_append_of_ne_nil (List.cons_ne_nil _ _)]
  exact List.mem_append_left _ member

theorem one_line_start (line start : Text) (one : OneLine line) (begins : start <+: line) : OneLine start := by
  obtain ⟨more, rfl⟩ := begins
  cases more with
  | nil =>
      rw [List.append_nil] at one
      exact one
  | cons x more => exact fun c member => one_line_front start more x one c (List.mem_of_mem_dropLast member)

theorem one_line_replace (text rest : Text) (one : OneLine text) : OneLine (replaceComma ⟨text, rest⟩).text := by
  obtain ⟨word, tail, rfl, passes, stops⟩ := break_at (· == ',') text
  have missing : ',' ∉ word := fun member => Bool.false_ne_true ((passes ',' member).symm.trans rfl)
  obtain rfl | ⟨comma, back, rfl, stop⟩ := stops
  · rw [List.append_nil] at one ⊢
    rw [replace_comma_nowhere word rest missing]
    exact one
  · rw [beq_iff_eq.mp stop] at one ⊢
    rw [replace_comma_at word back rest missing]
    intro c member
    rw [List.dropLast_append_of_ne_nil (List.cons_ne_nil _ _)] at member
    obtain inside | inside := List.mem_append.mp member
    · exact one_line_front word back ',' one c inside
    · cases back with
      | nil => exact absurd inside List.not_mem_nil
      | cons next back =>
          rw [List.dropLast_cons_of_ne_nil (List.cons_ne_nil _ _)] at inside
          obtain rfl | inside := List.mem_cons.mp inside
          · decide
          · refine one c ?_
            rw [List.dropLast_append_of_ne_nil (List.cons_ne_nil _ _), List.dropLast_cons_of_ne_nil (List.cons_ne_nil _ _)]
            exact List.mem_append_right _ (List.mem_cons_of_mem _ inside)

theorem replace_comma_rest (text rest : Text) : replaceComma ⟨text, rest⟩ = ⟨(replaceComma ⟨text, []⟩).text, rest⟩ := by
  rw [replaceComma, replaceComma]
  dsimp only
  cases text.findIdx? (· == ',') with
  | none => rfl
  | some i => rfl

theorem field_some (text word : Text) (found : field text = some word) : word = text.takeWhile (fun c => !endsField c) := by
  rw [field] at found
  by_cases empty : text.takeWhile (fun c => !endsField c) = []
  · rw [if_pos empty] at found
    cases found
  · rw [if_neg empty] at found
    exact (Option.some.inj found).symm

theorem inner_word_in_field (front word tail : Text) (spaceless : Spaceless word) (one : OneLine (front ++ (word ++ ' ' :: tail))) :
    ∀ c ∈ word, endsField c = false := by
  intro c member
  rw [← List.append_assoc] at one
  rw [endsField, spaceless_passes word spaceless c member,
    beq_eq_false_iff_ne.mpr (one_line_front _ tail ' ' one c (List.mem_append_right _ member)), Bool.or_false]

theorem middle_text (a b : Nat) (word second tail : Text) (filled : word ≠ []) (spaceless : Spaceless word)
    (filled2 : second ≠ []) (spaceless2 : Spaceless second)
    (one : OneLine (spaces a ++ (word ++ ' ' :: (spaces b ++ (second ++ ' ' :: tail))))) :
    operandText (spaces a ++ (word ++ ' ' :: (spaces b ++ (second ++ ' ' :: tail)))) = second := by
  have whole : spaces a ++ (word ++ ' ' :: (spaces b ++ (second ++ ' ' :: tail))) =
      (spaces a ++ (word ++ ' ' :: spaces b)) ++ (second ++ ' ' :: tail) := by
    simp only [List.append_assoc, List.cons_append]
  have inside := inner_word_in_field _ second tail spaceless2 (whole ▸ one)
  rw [second_text a b word _ filled spaceless (word_head second _ filled2 spaceless2)]
  exact take_while_break endsField second _ inside (Or.inr ⟨' ', tail, rfl, rfl⟩)

theorem split_words (text rest : Text) (one : OneLine text) (parts : Parts) (split : splitByChar ⟨text, rest⟩ ' ' = some parts)
    (operation : Text) (first : parts.part1 = some operation) :
    operation = operationText text ∧ ∀ operand, parts.part2.or parts.part3 = some operand → operand = operandText text := by
  cases text_shape text with
  | one a word spaceless =>
      rw [split_no_word a word rest spaceless parts split] at first
      cases first
  | two a b word second filled spaceless spaceless2 =>
      rw [split_two_words a b word rest second filled spaceless spaceless2] at split
      cases split
      rw [word_text a word _ filled spaceless, second_text a b word second filled spaceless (spaceless_head second spaceless2)]
      exact ⟨(Option.some.inj first).symm, field_some second⟩
  | more a b d word second third filled spaceless filled2 spaceless2 stops =>
      rw [split_three_words a b word rest d second third filled spaceless filled2 spaceless2 stops] at split
      cases split
      rw [word_text a word _ filled spaceless, middle_text a b word second _ filled spaceless filled2 spaceless2 one]
      exact ⟨(Option.some.inj first).symm, fun operand found => (Option.some.inj found).symm⟩

end BranchText

section BranchLines

theorem opcode_code_injective (op other : Opcode) (same : op.code = other.code) : op = other := by
  have decoded := opcode_of_code op
  rw [same, opcode_of_code other] at decoded
  exact (Option.some.inj decoded).symm

theorem parse_operand2_opcode (instr : Instruction) (operand2 : Text) : (parseOperand2 instr operand2).opcode = instr.opcode := by
  rw [parseOperand2]
  cases registerOf operand2 with
  | some reg => rfl
  | none =>
      cases isBracketed operand2 with
      | true => rfl
      | false => cases parseInt operand2 <;> rfl

theorem parse_operand1_opcode (instr : Instruction) (operand1 : Text) : (parseOperand1 instr operand1).opcode = instr.opcode := by
  rw [parseOperand1]
  cases registerOf operand1 with
  | some reg => rfl
  | none => cases isBracketed operand1 <;> rfl

theorem default_mode_opcode (instr : Instruction) : (defaultMode instr).opcode = instr.opcode := by
  rw [defaultMode]
  split <;> rfl

theorem parse_operands_opcode (instr result : Instruction) (parts : Parts) (parsed : parseOperands instr parts = some result) :
    result.opcode = instr.opcode := by
  rw [parseOperands] at parsed
  obtain ⟨operand2, _, rfl⟩ := Option.map_eq_some_iff.mp parsed
  cases parts.part2 with
  | none => exact parse_operand2_opcode instr operand2
  | some operand1 =>
      dsimp only
      rw [default_mode_opcode, parse_operand1_opcode, parse_operand2_opcode]

theorem compiled_branch (labels : Labels) (line : Text) (one : OneLine (visible line)) (instr : Instruction)
    (compiles : Compiles labels line instr) :
    match branchLabel line with
    | some label => instr.operand2 = (get labels label).getD uint64Max ∧ ∃ op : Opcode, op.isBranch = true ∧ instr.opcode = op.code
    | none => ∀ op : Opcode, op.isBranch = true → instr.opcode ≠ op.code := by
  obtain ⟨rest, parsed⟩ := compiles
  rw [parseLine, replace_comma_rest] at parsed
  obtain ⟨parts, split, parsed⟩ := Option.bind_eq_some_iff.mp parsed
  obtain ⟨operation, first, parsed⟩ := Option.bind_eq_some_iff.mp parsed
  obtain ⟨same, operand⟩ := split_words _ rest (one_line_replace (visible line) [] one) parts split operation first
  rw [branchLabel, ← same]
  cases found : operationOf operation with
  | none =>
      rw [found] at parsed
      intro op _ equal
      rw [parse_operands_opcode _ instr parts parsed] at equal
      cases op <;> exact absurd equal (by decide)
  | some op =>
      rw [found] at parsed
      dsimp only at parsed
      cases jumps : op.isBranch with
      | true =>
          rw [jumps, if_pos rfl, parseBranch] at parsed
          obtain ⟨label, field, rfl⟩ := Option.map_eq_some_iff.mp parsed
          rw [Option.filter_some, if_pos jumps, Option.map_some, ← operand label field]
          exact ⟨rfl, op, jumps, rfl⟩
      | false =>
          rw [jumps, if_neg Bool.false_ne_true] at parsed
          rw [Option.filter_some, if_neg (by rw [jumps]; exact Bool.false_ne_true), Option.map_none]
          intro other branches equal
          rw [parse_operands_opcode _ instr parts parsed] at equal
          rw [opcode_code_injective op other equal, branches] at jumps
          cases jumps

end BranchLines

section Closure

def Closed (program : Program) : Prop :=
  ∀ instr ∈ program.instructions, ∀ op : Opcode, op.isBranch = true → instr.opcode = op.code →
    instr.operand2.toNat < program.instructions.length

def Defined (read : List Text) (label : Text) : Prop :=
  ∃ line ∈ read, ∃ key, labelKey line = some key ∧ key.take keyRoom = label

theorem defined_iff (read : List Text) (label : Text) : Defined read label ↔ ∃ line ∈ read, kindOf line = .label label := by
  simp only [Defined, kind_label_iff]

theorem table_defined (read : List Text) (few : read.length < 2 ^ 64) (label : Text) (defined : Defined read label) :
    ∃ value, get (firstPass read).labels label = some value ∧ value.toNat ≤ (emitted kindOf read).length := by
  have follows := first_pass_follows read
  obtain ⟨line, member, defines⟩ := (defined_iff read label).mp defined
  obtain ⟨value, found⟩ := Option.isSome_iff_exists.mp ((get_known _ label follows.sound).mpr (follows.known line member label defines))
  obtain ⟨address, place, same⟩ := follows.justified _ (get_member _ label value found)
  have bound := defined_at_bound kindOf read label address place
  refine ⟨value, found, ?_⟩
  rw [show value = BitVec.ofNat 64 address from same, BitVec.toNat_ofNat,
    Nat.mod_eq_of_lt (Nat.lt_of_le_of_lt (Nat.le_trans bound (emitted_bound read)) few)]
  exact bound

theorem table_undefined (read : List Text) (label : Text) (missing : ¬ Defined read label) :
    get (firstPass read).labels label = none := by
  have follows := first_pass_follows read
  refine Option.not_isSome_iff_eq_none.mp fun found => ?_
  obtain ⟨entry, stored, rfl⟩ := (get_known _ label follows.sound).mp found
  obtain ⟨_, ⟨before, line, after, rfl, defines, _⟩, _⟩ := follows.justified entry stored
  exact missing ((defined_iff _ _).mpr ⟨line, List.mem_append_right _ List.mem_cons_self, defines⟩)

theorem related_of_mem {α β : Type} (related : α → β → Prop) (lines : List α) (results : List β)
    (each : List.Forall₂ related lines results) (line : α) (member : line ∈ lines) :
    ∃ result ∈ results, related line result := by
  obtain ⟨front, back, rfl⟩ := List.append_of_mem member
  obtain ⟨result, found, same⟩ := related_at related front back line results each
  exact ⟨result, List.mem_of_getElem? found, same⟩

theorem visible_one_line (line : Text) (one : OneLine line) : OneLine (visible line) := by
  refine one_line_start line (visible line) one ?_
  have stripped : visible line <+: cString line := List.takeWhile_prefix _
  have ended : cString line <+: line := List.takeWhile_prefix _
  exact stripped.trans ended

section AcceptedPrograms

variable (memory : Nat → Memory) (read : List Text) (last : SecondPass) (program : Program)

theorem program_length (accepted : Accepted memory read last program) :
    program.instructions.length = (emitted kindOf read).length + 1 := by
  rw [accepted.halted, List.length_append, List.length_singleton, accepted.compiled.length_eq]

theorem defined_of_closed (accepted : Accepted memory read last program) (one : ∀ line ∈ read, OneLine line)
    (few : read.length + 1 < 2 ^ 64) (closed : Closed program) (line : Text) (member : line ∈ read)
    (instruction : kindOf line = .instruction) (label : Text) (jumps : branchLabel line = some label) : Defined read label := by
  by_contra missing
  obtain ⟨instr, inside, compiles⟩ := related_of_mem _ _ _ accepted.compiled line
    (List.mem_filter.mpr ⟨member, decide_eq_true instruction⟩)
  have meaning := compiled_branch _ line (visible_one_line line (one line member)) instr compiles
  rw [jumps] at meaning
  obtain ⟨operand, op, branches, same⟩ := meaning
  rw [table_undefined read label missing, Option.getD_none] at operand
  have lands := closed instr (accepted.halted ▸ List.mem_append_left _ inside) op branches same
  have most := emitted_bound read
  rw [operand, uint64Max, BitVec.toNat_allOnes, program_length memory read last program accepted] at lands
  omega

theorem closed_of_defined (accepted : Accepted memory read last program) (one : ∀ line ∈ read, OneLine line)
    (few : read.length + 1 < 2 ^ 64)
    (known : ∀ line ∈ read, kindOf line = .instruction → ∀ label, branchLabel line = some label → Defined read label) :
    Closed program := by
  intro instr member op branches same
  rw [accepted.halted] at member
  obtain inside | inside := List.mem_append.mp member
  · obtain ⟨line, emits, compiles⟩ := related_of_mem _ _ _ accepted.compiled.flip instr inside
    obtain ⟨member, instruction⟩ := List.mem_filter.mp emits
    have meaning := compiled_branch _ line (visible_one_line line (one line member)) instr compiles
    cases jumps : branchLabel line with
    | none =>
        rw [jumps] at meaning
        exact absurd same (meaning op branches)
    | some label =>
        rw [jumps] at meaning
        obtain ⟨value, found, less⟩ := table_defined read (Nat.lt_of_succ_lt few) label
          (known line member (of_decide_eq_true instruction) label jumps)
        rw [meaning.1, found, Option.getD_some, program_length memory read last program accepted]
        exact Nat.lt_succ_of_le less
  · rw [List.mem_singleton.mp inside] at same
    rw [← opcode_code_injective .mov op same] at branches
    cases branches

end AcceptedPrograms

theorem closed_branch_lands (program : Program) (closed : Closed program) (instr : Instruction) (member : instr ∈ program.instructions)
    (op : Opcode) (branches : op.isBranch = true) (same : instr.opcode = op.code) (cpu : Driver.MyCpu) (board : Driver.Board) :
    ∃ j, j < program.instructions.length ∧ (Driver.branch true cpu board instr).cpu.pc = BitVec.ofNat 64 (j * instrSize) := by
  refine ⟨instr.operand2.toNat, closed instr member op branches same, ?_⟩
  rw [BitVec.ofNat_mul, BitVec.ofNat_toNat, BitVec.setWidth_eq]
  rfl

def Labelled (read : List Text) (label : Text) : Prop := ∃ line ∈ read, labelKey line = some label

structure ClosedUnderBranching (read : List Text) (program : Program) : Prop where
  closed : Closed program
  lands : ∀ instr ∈ program.instructions, ∀ op : Opcode, op.isBranch = true → instr.opcode = op.code →
    ∀ (cpu : Driver.MyCpu) (board : Driver.Board),
      ∃ j, j < program.instructions.length ∧ (Driver.branch true cpu board instr).cpu.pc = BitVec.ofNat 64 (j * instrSize)
  labelled : ∀ line ∈ read, kindOf line = .instruction → ∀ label, branchLabel line = some label → Labelled read label

-- An accepted program is closed under branching exactly when every label that is
-- branched to stands in front of some colon and fits into an entry.
theorem accepted_closed_iff (memory : Nat → Memory) (source : SourceFile) (program : Program)
    (accepted : parseAssembly memory (some source) = .ok program) :
    ∃ read, turns (source.bytes.length + 1) source.bytes = .ok read ∧
      (ClosedUnderBranching read program ↔
        ∀ line ∈ read, kindOf line = .instruction → ∀ label, branchLabel line = some label →
          Labelled read label ∧ label.length ≤ keyRoom) := by
  obtain ⟨read, turned, _, bound, one⟩ := turns_end _ source.bytes (Nat.lt_succ_self _)
  obtain ⟨last, accepted⟩ := parse_assembly_returns memory source read program turned accepted
  have size := source.size
  have few : read.length + 1 < 2 ^ 64 := by omega
  refine ⟨read, turned, fun whole line member instruction label jumps => ⟨whole.labelled line member instruction label jumps, ?_⟩,
    fun known => ?_⟩
  · obtain ⟨_, _, key, _, rfl⟩ :=
      defined_of_closed memory read last program accepted one few whole.closed line member instruction label jumps
    exact List.length_take_le _ _
  · have closed : Closed program :=
      closed_of_defined memory read last program accepted one few fun line member instruction label jumps => by
        obtain ⟨⟨defining, inside, written⟩, short⟩ := known line member instruction label jumps
        exact ⟨defining, inside, label, written, List.take_of_length_le short⟩
    exact ⟨closed, closed_branch_lands program closed,
      fun line member instruction label jumps => (known line member instruction label jumps).1⟩

theorem accepted_closed_iff_loop :
    ∃ read, turns 9 ['L', ':', '\n', 'J', 'M', 'P', ' ', 'L'] = .ok read ∧
      (ClosedUnderBranching read ⟨[⟨0, uint8Max, Opcode.jmp.code, Mode.label.code⟩, haltInstr], [['J', 'M', 'P', ' ', 'L'], haltText]⟩ ↔
        ∀ line ∈ read, kindOf line = .instruction → ∀ label, branchLabel line = some label →
          Labelled read label ∧ label.length ≤ keyRoom) :=
  accepted_closed_iff (fun _ => ⟨true, true, []⟩) ⟨['L', ':', '\n', 'J', 'M', 'P', ' ', 'L'], by decide⟩ _ (by decide +kernel)

-- The label X is defined nowhere, and the program is accepted all the same.
theorem unknown_label_accepted :
    ¬ ∀ (memory : Nat → Memory) (source : SourceFile) (program : Program) (read : List Text),
      turns (source.bytes.length + 1) source.bytes = .ok read → parseAssembly memory (some source) = .ok program →
        ClosedUnderBranching read program := by
  intro claimed
  have whole := claimed (fun _ => ⟨true, true, []⟩) ⟨['J', 'M', 'P', ' ', 'X', '\n'], by decide⟩
    ⟨[⟨uint64Max, uint8Max, Opcode.jmp.code, Mode.label.code⟩, haltInstr], [['J', 'M', 'P', ' ', 'X'], haltText]⟩
    [['J', 'M', 'P', ' ', 'X', '\n'], []] (by decide +kernel) (by decide +kernel)
  exact absurd (whole.closed _ List.mem_cons_self .jmp rfl rfl) (by decide)

end Closure

end CpuEmulator.Assembler
