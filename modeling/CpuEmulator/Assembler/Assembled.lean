import CpuEmulator.Assembler.Words

set_option autoImplicit false

namespace CpuEmulator.Assembler

open Library.Addresses

def compileAll (labels : Labels) : List Text → Option (List Instruction)
  | [] => some []
  | line :: lines => (parseLine ⟨visible line, []⟩ labels).bind fun instr => (compileAll labels lines).map (instr :: ·)

def assembled (read : List Text) : Option (List Instruction) :=
  (compileAll (firstPass read).labels (emitted kindOf read)).map (· ++ [haltInstr])

def Allocates (memory : Nat → Memory) : Prop := ∀ turn, (memory turn).realloc = true ∧ (memory turn).malloc = true

-- Two sources of one program: whatever the memory, two returned arrays are the
-- same, and with memory enough both runs return one or neither does.
structure SameProgram (source other : SourceFile) : Prop where
  instructions : ∀ memory memory' program program', parseAssembly memory (some source) = .ok program →
    parseAssembly memory' (some other) = .ok program' → program'.instructions = program.instructions
  returned : ∀ memory memory', Allocates memory → Allocates memory' →
    ((∃ program, parseAssembly memory (some source) = .ok program) ↔
      ∃ program, parseAssembly memory' (some other) = .ok program)

section Compiling

variable (labels : Labels)

theorem compiles_iff (line : Text) (instr : Instruction) :
    Compiles labels line instr ↔ parseLine ⟨visible line, []⟩ labels = some instr := by
  constructor
  · rintro ⟨rest, parsed⟩
    rw [parse_line_behind _ [] rest, parsed]
  · intro parsed
    exact ⟨[], parsed⟩

theorem compile_all_iff (lines : List Text) (instrs : List Instruction) :
    compileAll labels lines = some instrs ↔ List.Forall₂ (Compiles labels) lines instrs := by
  induction lines generalizing instrs with
  | nil =>
      rw [compileAll, Option.some.injEq, List.forall₂_nil_left_iff]
      exact eq_comm
  | cons line lines ih =>
      rw [compileAll, Option.bind_eq_some_iff]
      constructor
      · rintro ⟨instr, parsed, more⟩
        obtain ⟨rest, compiled, rfl⟩ := Option.map_eq_some_iff.mp more
        exact List.Forall₂.cons ((compiles_iff labels line instr).mpr parsed) ((ih rest).mp compiled)
      · intro each
        obtain ⟨instr, rest, first, more, rfl⟩ := List.forall₂_cons_left_iff.mp each
        exact ⟨instr, (compiles_iff labels line instr).mp first, by rw [(ih rest).mpr more]; rfl⟩

theorem compile_all_is_some (lines : List Text) :
    (compileAll labels lines).isSome ↔ ∀ line ∈ lines, (parseLine ⟨visible line, []⟩ labels).isSome := by
  induction lines with
  | nil => exact iff_of_true rfl (fun _ member => absurd member List.not_mem_nil)
  | cons line lines ih =>
      rw [compileAll, List.forall_mem_cons, ← ih]
      cases parseLine ⟨visible line, []⟩ labels with
      | none => exact ⟨fun some => (by cases some), fun both => (by cases both.1)⟩
      | some instr =>
          rw [Option.bind_some, Option.isSome_map]
          exact (and_iff_right rfl).symm

end Compiling

theorem compile_all_iff_operands (labels : Labels) (read : List Text) (one : ∀ line ∈ read, OneLine line) :
    (compileAll labels (emitted kindOf read)).isSome ↔ ∀ line ∈ read, kindOf line = .instruction → HasOperand line := by
  rw [compile_all_is_some]
  constructor
  · intro parsed line member instruction
    exact (parse_text_survives (visible line) [] _ (visible_one_line line (one line member))).mp
      (parsed line (List.mem_filter.mpr ⟨member, decide_eq_true instruction⟩))
  · intro operands line emits
    obtain ⟨member, instruction⟩ := List.mem_filter.mp emits
    exact (parse_text_survives (visible line) [] _ (visible_one_line line (one line member))).mpr (operands line member (of_decide_eq_true instruction))

theorem assembled_iff_operands (read : List Text) (one : ∀ line ∈ read, OneLine line) :
    (assembled read).isSome ↔ ∀ line ∈ read, kindOf line = .instruction → HasOperand line := by
  rw [assembled, Option.isSome_map, compile_all_iff_operands _ read one]

section Outcomes

variable (memory : Nat → Memory) (source : SourceFile) (read : List Text)
  (turned : turns (source.bytes.length + 1) source.bytes = .ok read)

include turned

theorem assembled_of_returned (program : Program) (returned : parseAssembly memory (some source) = .ok program) :
    assembled read = some program.instructions := by
  obtain ⟨last, accepted⟩ := parse_assembly_returns memory source read program turned returned
  rw [assembled, (compile_all_iff _ _ _).mpr accepted.compiled, accepted.halted]
  rfl

theorem returned_iff_assembled (allocates : Allocates memory) :
    (∃ program, parseAssembly memory (some source) = .ok program) ↔ (assembled read).isSome := by
  constructor
  · rintro ⟨program, returned⟩
    rw [assembled_of_returned memory source read turned program returned]
    rfl
  · intro some
    obtain ⟨again, turns, filled, _, _⟩ := turns_end _ source.bytes (Nat.lt_succ_self _)
    rw [turned] at turns
    cases turns
    rw [assembled, Option.isSome_map, compile_all_is_some] at some
    refine parse_assembly_succeeds memory source read turned filled (fun turn => (allocates turn).1)
      (fun turn => (allocates turn).2) (fun line member instruction rest => ?_)
    rw [parse_line_behind _ rest []]
    exact some line (List.mem_filter.mpr ⟨member, decide_eq_true instruction⟩)

theorem same_program_iff (other : SourceFile) (read' : List Text)
    (turned' : turns (other.bytes.length + 1) other.bytes = .ok read') :
    SameProgram source other ↔ assembled read = assembled read' := by
  have enough : Allocates (fun _ => ⟨true, true, []⟩) := fun _ => ⟨rfl, rfl⟩
  constructor
  · intro same
    have both := same.returned _ _ enough enough
    cases made : assembled read with
    | none =>
        have failed := (returned_iff_assembled _ source read turned enough).not.mpr (by rw [made]; exact Bool.false_ne_true)
        rw [both, returned_iff_assembled _ other read' turned' enough, Option.not_isSome_iff_eq_none] at failed
        exact failed.symm
    | some instrs =>
        obtain ⟨program, first⟩ := (returned_iff_assembled _ source read turned enough).mpr (by rw [made]; rfl)
        obtain ⟨program', second⟩ := both.mp ⟨program, first⟩
        rw [← made, assembled_of_returned _ source read turned program first,
          assembled_of_returned _ other read' turned' program' second, same.instructions _ _ program program' first second]
  · intro same
    refine ⟨fun memory memory' program program' first second => ?_, fun memory memory' allocates allocates' => ?_⟩
    · rw [assembled_of_returned memory source read turned program first,
        assembled_of_returned memory' other read' turned' program' second] at same
      exact (Option.some.inj same).symm
    · rw [returned_iff_assembled memory source read turned allocates,
        returned_iff_assembled memory' other read' turned' allocates', same]

end Outcomes

def statements (read : List Text) : List Text := (read.map visible).filter (fun text => !isEmpty text)

section Statements

theorem visible_visible (line : Text) : visible (visible line) = visible line := by
  have unended : cString (visible line) = visible line := List.takeWhile_eq_self_iff.mpr fun c member =>
    List.all_eq_true.mp List.all_takeWhile c ((List.takeWhile_prefix _).subset member)
  have stripped : strip (visible line) = visible line := List.takeWhile_eq_self_iff.mpr fun c member =>
    List.all_eq_true.mp List.all_takeWhile c member
  rw [visible, unended, stripped]

theorem kind_visible (line : Text) : kindOf (visible line) = kindOf line := by
  rw [kindOf, kindOf, labelKey, labelKey, visible_visible]

theorem first_pass_turn_eq (state : FirstPass) (line : Text) : firstPassTurn state line =
    if isEmpty (visible line) then state
    else
      match (visible line).findIdx? (· == ':') with
      | some colon =>
          { labels := put state.labels ((visible line).take colon) state.lineNumber, lineNumber := state.lineNumber - 1 + 1 }
      | none => { state with lineNumber := state.lineNumber + 1 } := by
  have text : (removeComment (lineArray line)).text = visible line := by rw [remove_comment_text, line_array_text, visible]
  rw [firstPassTurn, has_text_visible]
  dsimp only
  rw [text]
  cases isEmpty (visible line) with
  | true => rfl
  | false => rfl

theorem blank_statement (line : Text) (lines : List Text) (blank : isEmpty (visible line) = true) :
    statements (line :: lines) = statements lines := by
  rw [statements, List.map_cons, List.filter_cons_of_neg (by rw [blank]; exact Bool.false_ne_true), statements]

theorem visible_statement (line : Text) (lines : List Text) (filled : isEmpty (visible line) = false) :
    statements (line :: lines) = visible line :: statements lines := by
  rw [statements, List.map_cons, List.filter_cons_of_pos (by rw [filled]; rfl), statements]

theorem statements_append (front back : List Text) : statements (front ++ back) = statements front ++ statements back := by
  rw [statements, List.map_append, List.filter_append, statements, statements]

theorem statements_blank (lines : List Text) (blank : ∀ line ∈ lines, isEmpty (visible line) = true) : statements lines = [] := by
  induction lines with
  | nil => rfl
  | cons line lines ih =>
      rw [blank_statement line lines (blank line List.mem_cons_self), ih (fun other member => blank other (List.mem_cons_of_mem _ member))]

theorem first_pass_statements (read : List Text) : firstPass (statements read) = firstPass read := by
  have run (state : FirstPass) : (statements read).foldl firstPassTurn state = read.foldl firstPassTurn state := by
    induction read generalizing state with
    | nil => rfl
    | cons line read ih =>
        cases blank : isEmpty (visible line) with
        | true => rw [blank_statement line read blank, List.foldl_cons, first_pass_turn_eq state line, if_pos blank, ih]
        | false =>
            rw [visible_statement line read blank, List.foldl_cons, List.foldl_cons, ih, first_pass_turn_eq state (visible line),
              visible_visible, ← first_pass_turn_eq state line]
  exact run ⟨hashMakeTable, 0⟩

theorem emitted_statements (read : List Text) : emitted kindOf (statements read) = (emitted kindOf read).map visible := by
  induction read with
  | nil => rfl
  | cons line read ih =>
      cases blank : isEmpty (visible line) with
      | true =>
          have other : kindOf line ≠ .instruction := fun instruction => by
            have filled := ((kind_instruction_iff line).mp instruction).2.2
            rw [blank] at filled
            cases filled
          rw [blank_statement line read blank, emitted_other kindOf line read other, ih]
      | false =>
          rw [visible_statement line read blank]
          by_cases instruction : kindOf line = .instruction
          · rw [emitted_instruction kindOf _ _ ((kind_visible line).trans instruction),
              emitted_instruction kindOf line read instruction, ih, List.map_cons]
          · rw [emitted_other kindOf _ _ (by rw [kind_visible]; exact instruction), emitted_other kindOf line read instruction, ih]

theorem compile_all_visible (labels : Labels) (lines : List Text) : compileAll labels (lines.map visible) = compileAll labels lines := by
  induction lines with
  | nil => rfl
  | cons line lines ih => rw [List.map_cons, compileAll, compileAll, visible_visible, ih]

theorem assembled_statements (read : List Text) : assembled (statements read) = assembled read := by
  rw [assembled, assembled, first_pass_statements, emitted_statements, compile_all_visible]

theorem assembled_idle (read idle : List Text) (empty : ∀ line ∈ idle, line = []) : assembled (read ++ idle) = assembled read := by
  have nothing : statements idle = [] := statements_blank idle fun line member => by
    rw [empty line member]
    rfl
  rw [← assembled_statements, statements_append, nothing, List.append_nil, assembled_statements]

theorem reads_one_line (bytes : Text) : ∀ line ∈ reads (maxLen - 2) bytes, OneLine line := by
  obtain ⟨idle, turned, _⟩ := turns_reads _ bytes (Nat.lt_succ_self _)
  obtain ⟨read, again, _, _, one⟩ := turns_end _ bytes (Nat.lt_succ_self _)
  rw [turned] at again
  cases again
  exact fun line member => one line (List.mem_append_left _ member)

theorem same_program_reads (source other : SourceFile) : SameProgram source other ↔
    assembled (reads (maxLen - 2) source.bytes) = assembled (reads (maxLen - 2) other.bytes) := by
  obtain ⟨idle, turned, empty⟩ := turns_reads _ source.bytes (Nat.lt_succ_self _)
  obtain ⟨idle', turned', empty'⟩ := turns_reads _ other.bytes (Nat.lt_succ_self _)
  rw [same_program_iff source _ turned other _ turned', assembled_idle _ idle empty, assembled_idle _ idle' empty']

end Statements

end CpuEmulator.Assembler
