import CpuEmulator.Assembler.Grammar
import CpuEmulator.Assembler.Passes
import CpuEmulator.Assembler.Reading

set_option autoImplicit false

namespace CpuEmulator.Assembler

open Library.Addresses

section Programs

structure Accepted (memory : Nat → Memory) (read : List Text) (last : SecondPass) (program : Program) : Prop where
  passed : secondPass memory (firstPass read).labels 0 read ⟨[], [], 0⟩ = .ok last
  halted : program.instructions = last.instructions ++ [haltInstr]
  compiled : List.Forall₂ (Compiles (firstPass read).labels) (emitted kindOf read) last.instructions

theorem append_halt_returns (memory : Memory) (last : SecondPass) (program : Program)
    (returned : appendHalt memory last = .ok program) : program.instructions = last.instructions ++ [haltInstr] := by
  rw [appendHalt] at returned
  cases guarded_returns _ _ _ program returned
  rfl

theorem parse_assembly_returns (memory : Nat → Memory) (source : SourceFile) (read : List Text) (program : Program)
    (turned : turns (source.bytes.length + 1) source.bytes = .ok read)
    (returned : parseAssembly memory (some source) = .ok program) : ∃ last, Accepted memory read last program := by
  rw [parseAssembly, turned, Except.bind] at returned
  obtain ⟨last, passed, halting⟩ := bind_returns _ _ program returned
  obtain ⟨instrs, written, compiled⟩ := second_pass_returns _ memory 0 read _ last passed
  rw [List.nil_append] at written
  exact ⟨last, passed, append_halt_returns _ last program halting, written ▸ compiled⟩

theorem parse_assembly_succeeds (memory : Nat → Memory) (source : SourceFile) (read : List Text)
    (turned : turns (source.bytes.length + 1) source.bytes = .ok read) (some : read ≠ [])
    (realloc : ∀ turn, (memory turn).realloc = true) (malloc : ∀ turn, (memory turn).malloc = true)
    (understood : ∀ line ∈ read, kindOf line = .instruction →
      ∀ rest, (parseLine ⟨visible line, rest⟩ (firstPass read).labels).isSome) :
    ∃ program, parseAssembly memory (.some source) = .ok program := by
  obtain ⟨last, passed, room⟩ := second_pass_succeeds (firstPass read).labels memory 0 read ⟨[], [], 0⟩ (Or.inr ⟨rfl, rfl⟩) some
    realloc malloc understood
  refine ⟨⟨last.instructions ++ [haltInstr], last.instructionText ++ [haltText]⟩, ?_⟩
  rw [parseAssembly, turned, Except.bind, passed, Except.bind, appendHalt, if_neg (Nat.not_le.mpr room), if_pos (malloc _)]

theorem related_at {α β : Type} (related : α → β → Prop) (front back : List α) (line : α) (results : List β)
    (each : List.Forall₂ related (front ++ line :: back) results) :
    ∃ result, results[front.length]? = some result ∧ related line result := by
  induction front generalizing results with
  | nil =>
      cases each with
      | cons first rest => exact ⟨_, rfl, first⟩
  | cons other front ih =>
      cases each with
      | cons first rest => exact ih _ rest

end Programs

section WellFormedLines

-- An instruction line is a statement of the grammar, up to its comment.
def WellFormed (line : Text) : Prop :=
  kindOf line = .instruction → ∃ (statement : Statement) (layout : Layout), visible line = statement.line layout

theorem well_formed_understood (line : Text) (formed : WellFormed line) (instruction : kindOf line = .instruction)
    (labels : Labels) (rest : Text) : (parseLine ⟨visible line, rest⟩ labels).isSome := by
  obtain ⟨statement, layout, same⟩ := formed instruction
  obtain ⟨instr, parsed, _⟩ := parse_statement layout labels rest statement
  rw [same, parsed]
  rfl

theorem mnemonic_not_empty (op : Opcode) (indent : Nat) (after : Text) : isEmpty (spaces indent ++ (mnemonic op ++ after)) = false := by
  induction indent with
  | zero => cases op <;> rfl
  | succ indent ih => exact ih

theorem branch_line_is_instruction (op : { op // Opcode.isBranch op = true }) (label : Label) (layout : Layout) (line : Text)
    (same : visible line = (Statement.branch op label).line layout) : kindOf line = .instruction := by
  have named : ':' ∉ mnemonic op.val := by
    cases op.val <;> decide
  have missing : ':' ∉ (Statement.branch op label).line layout := by
    simp only [Statement.line, Statement.opcode, Statement.operands, Layout.line, Layout.operands, List.mem_append, List.mem_cons, not_or]
    exact ⟨not_mem_spaces _ _ (by decide), named, by decide, not_mem_spaces _ _ (by decide), label.colonless,
      not_mem_tail layout ':' (by decide) (by decide)⟩
  have colon : (visible line).findIdx? (· == ':') = none := by
    rw [same]
    exact find_missing ':' _ missing
  have filled : isEmpty (visible line) = false := by
    rw [same]
    exact mnemonic_not_empty _ _ _
  exact (kind_instruction_iff line).mpr ⟨by rw [has_text_visible, filled]; rfl, colon, filled⟩

end WellFormedLines

section Agreement

structure LastDefinition (lines before : List Text) (line : Text) (after : List Text) (key : Text) : Prop where
  place : lines = before ++ line :: after
  defines : labelKey line = some key
  last : ∀ later ∈ after, labelKey later ≠ some key

structure PassesAgree (memory : Nat → Memory) (lines : List Text) (labels : Labels) (program : Program) : Prop where
  emits : ∀ front back, lines = front ++ back →
    ∃ state, secondPass memory labels 0 front ⟨[], [], 0⟩ = .ok state ∧
      state.instructions.length = (emitted kindOf front).length ∧ state.instructions <+: program.instructions
  address : ∀ before line after key, LastDefinition lines before line after key →
    ∃ value, get labels key = some value ∧ value.toNat = (emitted kindOf before).length
  follows : ∀ before line after key, LastDefinition lines before line after key →
    ∀ following others, emitted kindOf after = following :: others →
      ∃ instr, program.instructions[(emitted kindOf before).length]? = some instr ∧ Compiles labels following instr
  halts : ∀ before line after key, LastDefinition lines before line after key → emitted kindOf after = [] →
    program.instructions[(emitted kindOf before).length]? = some haltInstr ∧
      (emitted kindOf before).length + 1 = program.instructions.length
  target : ∀ before line after key, LastDefinition lines before line after key →
    ∀ front back op label layout jump, lines = front ++ jump :: back →
      visible jump = (Statement.branch op label).line layout → label.name = key →
      ∃ instr, program.instructions[(emitted kindOf front).length]? = some instr ∧
        instr.opcode = op.val.code ∧ instr.mode = Mode.label.code ∧ instr.operand2.toNat = (emitted kindOf before).length

theorem kind_short_label_iff (line key : Text) (short : ∀ key ∈ labelKey line, key.length ≤ keyRoom) :
    kindOf line = .label key ↔ labelKey line = some key := by
  rw [kind_label_iff]
  constructor
  · rintro ⟨whole, defines, kept⟩
    rw [List.take_of_length_le (short whole defines)] at kept
    rw [defines, kept]
  · exact fun defines => ⟨key, defines, List.take_of_length_le (short key defines)⟩

theorem emitted_bound (lines : List Text) : (emitted kindOf lines).length ≤ lines.length := List.length_filter_le _ _

theorem emitted_idle (idle : List Text) (empty : ∀ line ∈ idle, line = []) : emitted kindOf idle = [] := by
  refine List.filter_eq_nil_iff.mpr (fun line member => ?_)
  rw [empty line member]
  decide

variable (memory : Nat → Memory) (lines idle : List Text)

theorem table_address (empty : ∀ line ∈ idle, line = []) (keys : ∀ line ∈ lines, ∀ key ∈ labelKey line, key.length ≤ keyRoom)
    (few : lines.length < 2 ^ 64) (before : List Text) (line : Text) (after : List Text) (key : Text)
    (definition : LastDefinition lines before line after key) :
    ∃ value, get (firstPass (lines ++ idle)).labels key = some value ∧ value.toNat = (emitted kindOf before).length := by
  obtain ⟨rfl, defines, last⟩ := definition
  have defined := (kind_short_label_iff line key (keys line (by simp))).mpr defines
  have shadowed : ∀ later ∈ after ++ idle, kindOf later ≠ .label key := by
    intro later member same
    obtain inside | inside := List.mem_append.mp member
    · exact last later inside ((kind_short_label_iff later key (keys later (by simp [inside]))).mp same)
    · rw [empty later inside] at same
      cases same
  have address := address_last kindOf before (after ++ idle) line key defined shadowed
  have bound : (emitted kindOf before).length < 2 ^ 64 := by
    have counted := emitted_bound before
    rw [List.length_append] at few
    omega
  have whole : Whole ((before ++ line :: after) ++ idle) key := by
    refine (whole_append _ idle key).mpr ⟨whole_of_short _ key keys, fun later inside written found => ?_⟩
    rw [empty later inside] at found
    cases found
  refine ⟨BitVec.ofNat 64 (emitted kindOf before).length, ?_, ?_⟩
  · rw [((first_pass_follows _).whole key whole).2, List.append_assoc, List.cons_append, address, Option.map_some]
  · rw [BitVec.toNat_ofNat, Nat.mod_eq_of_lt bound]

theorem first_lines_emitted (last : SecondPass) (program : Program) (accepted : Accepted memory (lines ++ idle) last program)
    (front back : List Text) (place : lines = front ++ back) :
    ∃ state, secondPass memory (firstPass (lines ++ idle)).labels 0 front ⟨[], [], 0⟩ = .ok state ∧
      state.instructions.length = (emitted kindOf front).length ∧ state.instructions <+: program.instructions := by
  have passed := accepted.passed
  rw [show lines ++ idle = front ++ (back ++ idle) by rw [place, List.append_assoc]] at passed ⊢
  rw [second_pass_append] at passed
  obtain ⟨state, first, rest⟩ := bind_returns _ _ last passed
  obtain ⟨instrs, written, compiled⟩ := second_pass_returns _ memory 0 front _ state first
  obtain ⟨more, writtenMore, _⟩ := second_pass_returns _ memory _ (back ++ idle) state last rest
  refine ⟨state, first, ?_, more ++ [haltInstr], ?_⟩
  · rw [written, List.nil_append, compiled.length_eq]
  · rw [accepted.halted, writtenMore, List.append_assoc]

theorem instruction_place (last : SecondPass) (program : Program) (accepted : Accepted memory (lines ++ idle) last program)
    (empty : ∀ line ∈ idle, line = []) (front others : List Text) (line : Text)
    (place : emitted kindOf lines = front ++ line :: others) :
    ∃ instr, program.instructions[front.length]? = some instr ∧ Compiles (firstPass (lines ++ idle)).labels line instr := by
  have compiled := accepted.compiled
  rw [emitted_append, emitted_idle idle empty, List.append_nil, place] at compiled
  obtain ⟨instr, found, compiles⟩ := related_at _ front others line _ compiled
  refine ⟨instr, ?_, compiles⟩
  obtain ⟨inside, _⟩ := List.getElem?_eq_some_iff.mp found
  rw [accepted.halted, List.getElem?_append_left inside, found]

theorem emitted_label (line : Text) (after : List Text) (key : Text) (defines : labelKey line = some key) :
    emitted kindOf (line :: after) = emitted kindOf after := by
  refine emitted_other kindOf line after ?_
  rw [kindOf, defines]
  intro other
  cases other

theorem accepted_passes_agree (empty : ∀ line ∈ idle, line = []) (last : SecondPass) (program : Program)
    (accepted : Accepted memory (lines ++ idle) last program)
    (keys : ∀ line ∈ lines, ∀ key ∈ labelKey line, key.length ≤ keyRoom) (few : lines.length < 2 ^ 64) :
    PassesAgree memory lines (firstPass (lines ++ idle)).labels program where
  emits := first_lines_emitted memory lines idle last program accepted
  address := table_address lines idle empty keys few
  follows := by
    intro before line after key definition following others next
    refine instruction_place memory lines idle last program accepted empty _ others following ?_
    rw [definition.place, emitted_append, emitted_label line after key definition.defines, next]
  halts := by
    intro before line after key definition none
    have counted := accepted.compiled.length_eq
    rw [emitted_append, emitted_idle idle empty, List.append_nil, definition.place, emitted_append,
      emitted_label line after key definition.defines, none, List.append_nil] at counted
    rw [accepted.halted, counted]
    refine ⟨?_, ?_⟩
    · rw [List.getElem?_append_right (Nat.le_refl _), Nat.sub_self, List.getElem?_cons_zero]
    · rw [List.length_append, List.length_singleton]
  target := by
    intro before line after key definition front back op label layout jump place same named
    have instruction := branch_line_is_instruction op label layout jump same
    obtain ⟨instr, found, rest, parsed⟩ := instruction_place memory lines idle last program accepted empty
      (emitted kindOf front) (emitted kindOf back) jump (by
        rw [place, emitted_append, emitted_instruction kindOf jump back instruction])
    obtain ⟨value, known, counted⟩ := table_address lines idle empty keys few before line after key definition
    obtain ⟨meant, understood, opcode, mode, operand⟩ :=
      parse_statement layout (firstPass (lines ++ idle)).labels rest (.branch op label)
    rw [← same, parsed] at understood
    cases understood
    dsimp only at operand
    rw [named, known, Option.getD_some] at operand
    exact ⟨instr, found, opcode, mode, operand ▸ counted⟩

end Agreement

section Files

theorem source_lines_length (bytes : Text) : (sourceLines bytes).length ≤ bytes.length := by
  induction bytes with
  | nil => exact Nat.le_refl _
  | cons c bytes ih =>
      rw [sourceLines, List.length_cons]
      by_cases newline : (c == '\n') = true
      · rw [if_pos newline]
        exact Nat.succ_le_succ ih
      · rw [if_neg newline]
        cases lines : sourceLines bytes with
        | nil => exact Nat.succ_le_succ (Nat.zero_le _)
        | cons line lines =>
            rw [lines] at ih
            exact Nat.le_succ_of_le ih

-- With memory there is a program, and in every program the branches to a key lead
-- where its last label line stands.
theorem two_passes_agree (memory : Nat → Memory) (source : SourceFile)
    (short : ∀ line ∈ sourceLines source.bytes, line.length < maxLen)
    (keys : ∀ line ∈ sourceLines source.bytes, ∀ key ∈ labelKey line, key.length ≤ keyRoom)
    (formed : ∀ line ∈ sourceLines source.bytes, WellFormed line) :
    ∃ read, turns (source.bytes.length + 1) source.bytes = .ok read ∧
      ((∀ turn, (memory turn).realloc = true ∧ (memory turn).malloc = true) →
        ∃ program, parseAssembly memory (some source) = .ok program) ∧
      ∀ program, parseAssembly memory (some source) = .ok program →
        PassesAgree memory (sourceLines source.bytes) (firstPass read).labels program := by
  obtain ⟨idle, turned, empty⟩ := turns_source_lines _ source.bytes (Nat.lt_succ_self _) short
  have few : (sourceLines source.bytes).length < 2 ^ 64 :=
    Nat.lt_of_le_of_lt (source_lines_length source.bytes) (Nat.lt_trans source.size (by decide))
  refine ⟨sourceLines source.bytes ++ idle, turned, fun enough => ?_, fun program returned => ?_⟩
  · obtain ⟨read, again, some, _, _⟩ := turns_end _ source.bytes (Nat.lt_succ_self _)
    rw [turned] at again
    cases again
    refine parse_assembly_succeeds memory source _ turned some (fun turn => (enough turn).1) (fun turn => (enough turn).2)
      (fun line member instruction rest => ?_)
    obtain inside | inside := List.mem_append.mp member
    · exact well_formed_understood line (formed line inside) instruction _ rest
    · rw [empty line inside] at instruction
      cases instruction
  · obtain ⟨last, accepted⟩ := parse_assembly_returns memory source _ program turned returned
    exact accepted_passes_agree memory _ idle empty last program accepted keys few

theorem two_passes_agree_loop :
    ∃ program, parseAssembly (fun _ => ⟨true, true, []⟩)
      (some ⟨['L', ':', '\n', 'J', 'M', 'P', ' ', 'L', ' ', ';', ':', '\n'], by decide⟩) = .ok program := by
  obtain ⟨_, _, accepted, _⟩ := two_passes_agree (fun _ => ⟨true, true, []⟩)
    ⟨['L', ':', '\n', 'J', 'M', 'P', ' ', 'L', ' ', ';', ':', '\n'], by decide⟩ (by decide) (by decide) (by
      intro line member instruction
      obtain rfl | rfl := List.mem_pair.mp member
      · cases instruction
      · exact ⟨.branch ⟨.jmp, rfl⟩ ⟨['L'], ⟨by decide, by decide⟩, by decide⟩, ⟨0, 0, 0, 0, 1, false⟩, rfl⟩)
  exact accepted (fun _ => ⟨rfl, rfl⟩)

end Files

end CpuEmulator.Assembler
