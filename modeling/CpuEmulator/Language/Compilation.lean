import CpuEmulator.Assembler.Assembled
import CpuEmulator.Language.Source

set_option autoImplicit false

namespace CpuEmulator.Language

open Library Library.Addresses Assembler

inductive LineListing (line : Text) : List Item → Prop where
  | nothing (blank : isEmpty (visible line) = true) : LineListing line []
  | label (name : Text) (defines : labelKey line = some name) (short : name.length ≤ keyRoom) : LineListing line [.label name]
  | statement (statement : Statement) (layout : Layout) (instruction : kindOf line = .instruction)
      (written : visible line = statement.line layout) :
      LineListing line [.statement statement (removeNewline (cString line))]

inductive Listing : List Text → List Item → Prop where
  | nil : Listing [] []
  | cons (line : Text) (lines : List Text) (said items : List Item) (first : LineListing line said) (rest : Listing lines items) :
      Listing (line :: lines) (said ++ items)

def targetOf (items : List Item) (name : Text) : U64 :=
  BitVec.ofNat 64 (((after Item.kind name items).map (place items)).getD 0)

structure Compiled (items : List Item) (code : List Instruction) : Prop where
  denotes : ∃ instrs, code = instrs ++ [haltInstr] ∧
    List.Forall₂ (fun statement instr => statement.Denotes (targetOf items) instr) (statementsOf items) instrs

section Lines

variable (lines : List Text) (items : List Item)

theorem blank_kind (line : Text) (blank : isEmpty (visible line) = true) : kindOf line = .blank := by
  rw [kindOf, labelKey, if_pos blank]
  exact if_pos blank

theorem label_kind (line name : Text) (defines : labelKey line = some name) (short : name.length ≤ keyRoom) :
    kindOf line = .label name :=
  (kind_label_iff line name).mpr ⟨name, defines, List.take_of_length_le short⟩

theorem listing_marks (listed : Listing lines items) : marks kindOf lines = marks Item.kind items := by
  induction listed with
  | nil => rfl
  | cons line lines said items first _ ih =>
      rw [marks_cons]
      cases first with
      | nothing blank => rw [if_pos (blank_kind line blank), ih, List.nil_append]
      | label name defines short =>
          rw [label_kind line name defines short, if_neg (by rintro ⟨⟩), List.singleton_append, marks_cons, ih]
          exact (if_neg (by rintro ⟨⟩)).symm
      | statement statement layout instruction written =>
          rw [instruction, if_neg (by rintro ⟨⟩), List.singleton_append, marks_cons, ih]
          exact (if_neg (by rintro ⟨⟩)).symm

theorem listing_emitted (listed : Listing lines items) :
    List.Forall₂ (fun line statement => ∃ layout, visible line = statement.line layout) (emitted kindOf lines)
      (statementsOf items) ∧ textsOf items = (emitted kindOf lines).map (fun line => removeNewline (cString line)) := by
  induction listed with
  | nil => exact ⟨.nil, rfl⟩
  | cons line lines said items first _ ih =>
      cases first with
      | nothing blank =>
          rw [emitted_other kindOf line lines (by rw [blank_kind line blank]; rintro ⟨⟩), List.nil_append]
          exact ih
      | label name defines short =>
          rw [emitted_other kindOf line lines (by rw [label_kind line name defines short]; rintro ⟨⟩)]
          exact ih
      | statement statement layout instruction written =>
          rw [emitted_instruction kindOf line lines instruction]
          exact ⟨.cons ⟨layout, written⟩ ih.1, congrArg (removeNewline (cString line) :: ·) ih.2⟩

theorem listing_idle (idle : List Text) (empty : ∀ line ∈ idle, line = []) (listed : Listing lines items) : Listing (lines ++ idle) items := by
  induction listed with
  | nil =>
      rw [List.nil_append]
      induction idle with
      | nil => exact .nil
      | cons line idle ih =>
          have blank : isEmpty (visible line) = true := by
            rw [empty line List.mem_cons_self]
            rfl
          exact .cons line idle [] [] (.nothing blank) (ih (fun other member => empty other (List.mem_cons_of_mem _ member)))
  | cons line lines said items first _ ih => exact .cons line _ said items first ih

theorem listing_keys_short (listed : Listing lines items) : ∀ line ∈ lines, ∀ written ∈ labelKey line, written.length ≤ keyRoom := by
  induction listed with
  | nil => exact fun line member => absurd member List.not_mem_nil
  | cons line lines said items first _ ih =>
      refine List.forall_mem_cons.mpr ⟨fun written defines => ?_, ih⟩
      have kind := label_key_kind line written defines
      cases first with
      | nothing blank => cases (blank_kind line blank).symm.trans kind
      | label name named short =>
          obtain rfl := Option.some.inj (named.symm.trans defines)
          exact short
      | statement _ _ instruction => cases instruction.symm.trans kind

theorem listing_target (listed : Listing lines items) (name : Text) (defined : ∃ item ∈ items, item.kind = .label name) :
    get (firstPass lines).labels name = some (targetOf items name) := by
  obtain ⟨rest, found⟩ := after_defined Item.kind name items defined
  rw [((first_pass_follows lines).whole name (whole_of_short lines name (listing_keys_short lines items listed))).2, resolve_congr kindOf Item.kind lines items (listing_marks lines items listed),
    address_after Item.kind name items rest found, Option.map_some, targetOf, found, emitted_items, emitted_items]
  rfl

theorem label_of_branch (statement : Statement) (label : Label) (named : label ∈ statement.label) :
    ∃ op, statement = .branch op label := by
  cases statement with
  | branch op other =>
      obtain rfl := Option.some.inj named
      exact ⟨op, rfl⟩
  | registers | literal | load | store | negate => cases named

theorem lines_denote (labels : Labels) (target : Text → U64) (written : List Text) (stated : List Statement) (instrs : List Instruction)
    (each : List.Forall₂ (fun line statement => ∃ layout, visible line = statement.line layout) written stated)
    (compiled : List.Forall₂ (Compiles labels) written instrs)
    (known : ∀ op label, .branch op label ∈ stated → get labels label.name = some (target label.name)) :
    List.Forall₂ (fun statement instr => statement.Denotes target instr) stated instrs := by
  induction each generalizing instrs with
  | nil =>
      cases compiled
      exact .nil
  | @cons line statement _ _ first _ ih =>
      obtain ⟨instr, rest, ⟨behind, parsed⟩, others, rfl⟩ := List.forall₂_cons_left_iff.mp compiled
      obtain ⟨layout, same⟩ := first
      refine .cons ?_ (ih rest others fun op label member => known op label (List.mem_cons_of_mem _ member))
      obtain ⟨again, read, denotes⟩ := parse_statement layout labels behind statement
      rw [← same, parsed] at read
      obtain rfl := Option.some.inj read
      refine denotes_target _ _ _ _ (fun label named => ?_) denotes
      obtain ⟨op, rfl⟩ := label_of_branch statement label named
      rw [known op label List.mem_cons_self, Option.getD_some]

theorem listing_compiled (listed : Listing lines items) (closed : Closed items) (instrs : List Instruction)
    (compiled : List.Forall₂ (Compiles (firstPass lines).labels) (emitted kindOf lines) instrs) :
    Compiled items (instrs ++ [haltInstr]) :=
  ⟨instrs, rfl, lines_denote _ _ _ _ instrs (listing_emitted lines items listed).1 compiled fun op label member =>
    listing_target lines items listed label.name (closed.labelled op label member)⟩

end Lines

section Texts

variable (labels : Labels)

theorem second_pass_turn_texts (memory : Memory) (state next : SecondPass) (line : Text)
    (returned : secondPassTurn memory labels state line = .ok next) :
    next.instructionText = state.instructionText ++ (emitted kindOf [line]).map (fun line => removeNewline (cString line)) := by
  rw [second_pass_turn_eq] at returned
  obtain ⟨grown, growing, turn⟩ := bind_returns _ _ next returned
  have same : grown.instructionText = state.instructionText := by
    obtain ⟨failed, _⟩ | ⟨capacity, grows, _⟩ := grow_cases memory state
    · rw [failed] at growing
      cases growing
    · rw [grows] at growing
      cases growing
      rfl
  by_cases instruction : kindOf line = .instruction
  · rw [if_pos instruction, emit] at turn
    have written := guarded_returns _ memory _ next turn
    rw [emitted_instruction kindOf line [] instruction, ← same]
    split at written
    · cases written
    · obtain rfl := Except.ok.inj written
      rw [line_array_text]
      rfl
  · rw [if_neg instruction] at turn
    cases turn
    rw [emitted_other kindOf line [] instruction, same]
    exact (List.append_nil _).symm

theorem second_pass_texts (memory : Nat → Memory) (turn : Nat) (lines : List Text) (state last : SecondPass)
    (returned : secondPass memory labels turn lines state = .ok last) :
    last.instructionText = state.instructionText ++ (emitted kindOf lines).map (fun line => removeNewline (cString line)) := by
  induction lines generalizing turn state with
  | nil =>
      cases returned
      exact (List.append_nil _).symm
  | cons line lines ih =>
      obtain ⟨next, first, rest⟩ := bind_returns _ _ last returned
      have split : emitted kindOf (line :: lines) = emitted kindOf [line] ++ emitted kindOf lines := emitted_append kindOf [line] lines
      rw [ih (turn + 1) next rest, second_pass_turn_texts labels (memory turn) state next line first, split, List.map_append,
        List.append_assoc]

end Texts

theorem returned_compiled (memory : Nat → Memory) (source : SourceFile) (items : List Item) (program : Program)
    (short : ∀ line ∈ sourceLines source.bytes, line.length < maxLen) (listed : Listing (sourceLines source.bytes) items)
    (closed : Closed items) (returned : parseAssembly memory (some source) = .ok program) :
    Compiled items program.instructions ∧ program.instructionText = textsOf items ++ [haltText] := by
  obtain ⟨idle, turned, empty⟩ := turns_source_lines _ source.bytes (Nat.lt_succ_self _) short
  have whole := listing_idle _ items idle empty listed
  obtain ⟨last, accepted⟩ := parse_assembly_returns memory source _ program turned returned
  refine ⟨?_, ?_⟩
  · rw [accepted.halted]
    exact listing_compiled _ items whole closed _ accepted.compiled
  · have texts := second_pass_texts _ memory 0 _ _ last accepted.passed
    rw [List.nil_append, ← (listing_emitted _ items whole).2] at texts
    rw [parseAssembly, turned, Except.bind, accepted.passed, Except.bind, appendHalt] at returned
    obtain rfl := Except.ok.inj (guarded_returns _ _ _ program returned)
    rw [texts]

theorem listing_returned (memory : Nat → Memory) (source : SourceFile) (items : List Item)
    (short : ∀ line ∈ sourceLines source.bytes, line.length < maxLen) (listed : Listing (sourceLines source.bytes) items)
    (allocates : Allocates memory) : ∃ program, parseAssembly memory (some source) = .ok program := by
  obtain ⟨idle, turned, empty⟩ := turns_source_lines _ source.bytes (Nat.lt_succ_self _) short
  refine (returned_iff_assembled memory source _ turned allocates).mpr ?_
  rw [assembled, Option.isSome_map, compile_all_is_some, emitted_append, emitted_idle idle empty, List.append_nil]
  have written := (listing_emitted _ items listed).1
  generalize emitted kindOf (sourceLines source.bytes) = lines at written
  generalize statementsOf items = statements at written
  induction written with
  | nil => exact fun line member => absurd member List.not_mem_nil
  | cons first _ ih =>
      intro line member
      obtain rfl | member := List.mem_cons.mp member
      · obtain ⟨layout, same⟩ := first
        obtain ⟨instr, parsed, _⟩ := parse_statement layout (firstPass (sourceLines source.bytes ++ idle)).labels [] _
        rw [same, parsed]
        rfl
      · exact ih line member

end CpuEmulator.Language
