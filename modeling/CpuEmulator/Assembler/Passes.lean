import CpuEmulator.Assembler.Lines
import Mathlib.Data.List.Forall2

set_option autoImplicit false

namespace CpuEmulator.Assembler

open Library.Addresses

section FirstPass

theorem first_pass_turn_cases (state : FirstPass) (line : Text) :
    kindOf line = .blank ∧ firstPassTurn state line = state ∨
    (∃ key, labelKey line = some key ∧
      firstPassTurn state line = ⟨put state.labels key state.lineNumber, state.lineNumber⟩) ∨
    kindOf line = .instruction ∧ firstPassTurn state line = { state with lineNumber := state.lineNumber + 1 } := by
  have text : (removeComment (lineArray line)).text = visible line := by rw [remove_comment_text, line_array_text, visible]
  rw [kindOf, labelKey, firstPassTurn, has_text_visible]
  dsimp only
  rw [text]
  cases empty : isEmpty (visible line) with
  | true => exact Or.inl ⟨rfl, rfl⟩
  | false =>
      cases colon : (visible line).findIdx? (· == ':') with
      | none => exact Or.inr (Or.inr ⟨rfl, rfl⟩)
      | some i =>
          refine Or.inr (Or.inl ⟨(visible line).take i, rfl, ?_⟩)
          rw [Bool.not_false, if_pos rfl]
          dsimp only
          rw [BitVec.sub_add_cancel]

-- Nothing is cut off when a line defines this key.
def Whole (lines : List Text) (key : Text) : Prop :=
  ∀ line ∈ lines, ∀ written ∈ labelKey line, written.take keyRoom = key → written = key

instance (lines : List Text) (key : Text) : Decidable (Whole lines key) :=
  inferInstanceAs (Decidable (∀ line ∈ lines, ∀ written ∈ labelKey line, written.take keyRoom = key → written = key))

theorem whole_append (front back : List Text) (key : Text) : Whole (front ++ back) key ↔ Whole front key ∧ Whole back key :=
  List.forall_mem_append

theorem whole_of_short (lines : List Text) (key : Text) (short : ∀ line ∈ lines, ∀ written ∈ labelKey line, written.length ≤ keyRoom) :
    Whole lines key := by
  intro line member written defines kept
  rw [List.take_of_length_le (short line member written defines)] at kept
  exact kept

-- What the first pass has made of the lines. Of a key that is cut off there may
-- be several entries, and the buckets decide which of them is found.
structure Follows (state : FirstPass) (lines : List Text) : Prop where
  counted : state.lineNumber = BitVec.ofNat 64 (emitted kindOf lines).length
  sound : Sound state.labels
  short : ShortKeys state.labels
  known : ∀ line ∈ lines, ∀ key, kindOf line = .label key → ∃ entry ∈ state.labels.entries, entry.key = key
  justified : ∀ entry ∈ state.labels.entries, ∃ address, DefinedAt kindOf lines entry.key address ∧ entry.value = BitVec.ofNat 64 address
  whole : ∀ key, Whole lines key → Once state.labels key ∧
    get state.labels key = ((resolve kindOf lines).address key).map (BitVec.ofNat 64)

theorem other_turn_follows (state next : FirstPass) (lines : List Text) (line : Text) (follows : Follows state lines)
    (plain : ∀ key, kindOf line ≠ .label key) (same : next.labels = state.labels)
    (counted : next.lineNumber = BitVec.ofNat 64 (emitted kindOf (lines ++ [line])).length) : Follows next (lines ++ [line]) := by
  refine ⟨counted, same ▸ follows.sound, same ▸ follows.short, fun later member key defines => ?_, fun entry member => ?_,
    fun key whole => ?_⟩
  · obtain inside | last := List.mem_append.mp member
    · exact same ▸ follows.known later inside key defines
    · rw [List.mem_singleton.mp last] at defines
      exact absurd defines (plain key)
  · obtain ⟨address, defined, value⟩ := follows.justified entry (same ▸ member)
    exact ⟨address, defined_at_append kindOf lines _ address [line] defined, value⟩
  · rw [resolve_snoc, address_assign_other kindOf _ line key (plain key), same]
    exact follows.whole key ((whole_append lines [line] key).mp whole).1

theorem label_turn_follows (state : FirstPass) (lines : List Text) (line key : Text) (follows : Follows state lines)
    (written : labelKey line = some key) :
    Follows ⟨put state.labels key state.lineNumber, state.lineNumber⟩ (lines ++ [line]) := by
  have defines : kindOf line = .label (key.take keyRoom) := (kind_label_iff line _).mpr ⟨key, written, rfl⟩
  have updated := put_updated state.labels key state.lineNumber follows.sound follows.short
  refine ⟨?_, (put_written _ _ _ follows.sound).1, put_keys_short _ _ _ follows.sound follows.short,
    fun later member other defined => ?_, fun entry member => ?_, fun other whole => ?_⟩
  · rw [emitted_append, emitted_other kindOf line [] (fun other => by cases defines.symm.trans other)]
    exact follows.counted.trans (congrArg (fun lines => BitVec.ofNat 64 (List.length lines)) (List.append_nil _).symm)
  · obtain inside | last := List.mem_append.mp member
    · obtain ⟨entry, stored, rfl⟩ := follows.known later inside other defined
      obtain same | kept := updated.keeps entry stored
      · exact ⟨_, updated.has, same.symm⟩
      · exact ⟨entry, kept, rfl⟩
    · rw [List.mem_singleton.mp last, defines] at defined
      exact ⟨_, updated.has, Kind.label.inj defined⟩
  · obtain rfl | old := updated.comes entry member
    · exact ⟨_, ⟨lines, line, [], rfl, defines, rfl⟩, follows.counted⟩
    · obtain ⟨address, defined, value⟩ := follows.justified entry old
      exact ⟨address, defined_at_append kindOf lines _ address [line] defined, value⟩
  · obtain ⟨before, last⟩ := (whole_append lines [line] other).mp whole
    obtain ⟨once, found⟩ := follows.whole other before
    obtain ⟨still, get_eq⟩ := get_put state.labels key state.lineNumber follows.sound follows.short other once
      (last line List.mem_cons_self key written)
    refine ⟨still, ?_⟩
    dsimp only
    rw [get_eq, resolve_snoc, assign_label kindOf _ line _ defines]
    dsimp only
    rw [Function.update_apply, found, follows.counted, count_resolve]
    by_cases asked : other = key.take keyRoom
    · rw [if_pos asked, if_pos asked, Option.map_some]
    · rw [if_neg asked, if_neg asked]

theorem first_pass_turn_follows (state : FirstPass) (lines : List Text) (line : Text) (follows : Follows state lines) :
    Follows (firstPassTurn state line) (lines ++ [line]) := by
  obtain ⟨same, turn⟩ | ⟨key, written, turn⟩ | ⟨same, turn⟩ := first_pass_turn_cases state line
  · refine other_turn_follows state _ lines line follows (fun key other => by cases same.symm.trans other) (by rw [turn]) ?_
    rw [turn, emitted_append, emitted_other kindOf line [] (fun other => by cases same.symm.trans other), follows.counted]
    exact congrArg (fun lines => BitVec.ofNat 64 (List.length lines)) (List.append_nil _).symm
  · rw [turn]
    exact label_turn_follows state lines line key follows written
  · refine other_turn_follows state _ lines line follows (fun key other => by cases same.symm.trans other) (by rw [turn]) ?_
    rw [turn, emitted_append, emitted_instruction kindOf line [] same, List.length_append, BitVec.ofNat_add]
    exact congrArg (· + 1) follows.counted

theorem first_pass_follows (lines : List Text) : Follows (firstPass lines) lines := by
  induction lines using List.reverseRecOn with
  | nil =>
      have none (entry : LabelAddress) : entry ∉ hashMakeTable.entries := by
        rw [make_table_entries]
        exact List.not_mem_nil
      exact ⟨rfl, make_table_sound, fun entry member => absurd member (none entry), fun line member => absurd member List.not_mem_nil,
        fun entry member => absurd member (none entry), fun key _ => ⟨once_empty key, get_empty key⟩⟩
  | append_singleton lines line ih =>
      rw [firstPass, List.foldl_append]
      exact first_pass_turn_follows _ lines line ih

end FirstPass

section SecondPass

variable (labels : Labels)

def Compiles (line : Text) (instr : Instruction) : Prop :=
  ∃ rest, parseLine ⟨visible line, rest⟩ labels = some instr

def Roomy (state : SecondPass) : Prop :=
  state.instructions.length < state.capacity ∨ state.capacity = 0 ∧ state.instructions = []

theorem grow_cases (memory : Memory) (state : SecondPass) :
    grow memory state = .error .null ∧ memory.realloc = false ∨
    ∃ capacity, grow memory state = .ok { state with capacity := capacity } ∧
      (Roomy state → state.instructions.length + 1 < capacity) := by
  rw [grow]
  by_cases full : state.instructions.length + 1 = state.capacity ∨ state.capacity = 0
  · rw [if_pos full]
    cases memory.realloc with
    | false => exact Or.inl ⟨rfl, rfl⟩
    | true =>
        refine Or.inr ⟨_, rfl, fun roomy => ?_⟩
        obtain room | ⟨empty, none⟩ := roomy
        · rw [if_neg (by omega)]
          omega
        · rw [if_pos empty, none]
          decide
  · rw [if_neg full]
    refine Or.inr ⟨state.capacity, rfl, fun roomy => ?_⟩
    obtain room | ⟨empty, _⟩ := roomy
    · omega
    · exact absurd (Or.inr empty) full

theorem copy_line_visible (memory : Memory) (line : Text) :
    (removeComment (copyLine memory (lineArray line).text)).text = visible line := by
  rw [remove_comment_text, copyLine, line_array_text, visible]

theorem kind_instruction_iff (line : Text) :
    kindOf line = .instruction ↔
      hasText line = true ∧ (visible line).findIdx? (· == ':') = none ∧ isEmpty (visible line) = false := by
  rw [kindOf, labelKey, has_text_visible]
  cases empty : isEmpty (visible line) with
  | true => exact ⟨fun other => (by cases other), fun parts => absurd parts.1 Bool.false_ne_true⟩
  | false =>
      cases colon : (visible line).findIdx? (· == ':') with
      | none => exact ⟨fun _ => ⟨rfl, rfl, rfl⟩, fun _ => rfl⟩
      | some i => exact ⟨fun other => (by cases other), fun parts => (by cases parts.2.1)⟩

theorem second_pass_turn_eq (memory : Memory) (state : SecondPass) (line : Text) :
    secondPassTurn memory labels state line = (grow memory state).bind fun state =>
      if kindOf line = .instruction then
        emit memory labels state (lineArray line).text (removeComment (copyLine memory (lineArray line).text))
      else .ok state := by
  rw [secondPassTurn]
  congr 1
  funext state
  have test := kind_instruction_iff line
  rw [← copy_line_visible memory line] at test
  by_cases text : hasText line = true
  · by_cases instruction : kindOf line = .instruction
    · rw [if_pos text, if_pos instruction]
      dsimp only
      rw [if_pos (test.mp instruction).2]
    · rw [if_pos text, if_neg instruction]
      dsimp only
      rw [if_neg (fun parts => instruction (test.mpr ⟨text, parts⟩))]
  · rw [if_neg text, if_neg (fun instruction => text (test.mp instruction).1)]

theorem bind_returns {α β : Type} (first : Except Failure α) (next : α → Except Failure β) (result : β)
    (returned : first.bind next = .ok result) : ∃ value, first = .ok value ∧ next value = .ok result := by
  cases first with
  | error failure => cases returned
  | ok value => exact ⟨value, rfl, returned⟩

theorem guarded_returns {α : Type} (full : Prop) [Decidable full] (memory : Memory) (written : Except Failure α) (result : α)
    (returned : (if full then .error .fault else if memory.malloc then written else .error .null) = .ok result) :
    written = .ok result := by
  by_cases filled : full
  · rw [if_pos filled] at returned
    cases returned
  · rw [if_neg filled] at returned
    by_cases allocated : memory.malloc = true
    · rw [if_pos allocated] at returned
      exact returned
    · rw [if_neg allocated] at returned
      cases returned

theorem emit_returns (memory : Memory) (state next : SecondPass) (text : Text) (lineCopy : Buffer)
    (returned : emit memory labels state text lineCopy = .ok next) :
    ∃ instr, parseLine lineCopy labels = some instr ∧ next.instructions = state.instructions ++ [instr] := by
  rw [emit] at returned
  have written := guarded_returns _ memory _ next returned
  cases parsed : parseLine lineCopy labels with
  | none =>
      rw [parsed] at written
      cases written
  | some instr =>
      rw [parsed] at written
      cases written
      exact ⟨instr, rfl, rfl⟩

theorem second_pass_turn_returns (memory : Memory) (state next : SecondPass) (line : Text)
    (returned : secondPassTurn memory labels state line = .ok next) :
    ∃ instrs, next.instructions = state.instructions ++ instrs ∧ List.Forall₂ (Compiles labels) (emitted kindOf [line]) instrs := by
  rw [second_pass_turn_eq] at returned
  obtain ⟨grown, growing, turn⟩ := bind_returns _ _ next returned
  have same : grown.instructions = state.instructions := by
    obtain ⟨failed, _⟩ | ⟨capacity, grows, _⟩ := grow_cases memory state
    · rw [failed] at growing
      cases growing
    · rw [grows] at growing
      cases growing
      rfl
  by_cases instruction : kindOf line = .instruction
  · rw [if_pos instruction] at turn
    obtain ⟨instr, parsed, written⟩ := emit_returns labels memory grown next _ _ turn
    refine ⟨[instr], by rw [written, same], ?_⟩
    rw [emitted_instruction kindOf line [] instruction]
    refine List.Forall₂.cons ⟨(removeComment (copyLine memory (lineArray line).text)).rest, ?_⟩ List.Forall₂.nil
    rw [← copy_line_visible memory line]
    exact parsed
  · rw [if_neg instruction] at turn
    cases turn
    refine ⟨[], by rw [same, List.append_nil], ?_⟩
    rw [emitted_other kindOf line [] instruction]
    exact List.Forall₂.nil

theorem second_pass_returns (memory : Nat → Memory) (turn : Nat) (lines : List Text) (state last : SecondPass)
    (returned : secondPass memory labels turn lines state = .ok last) :
    ∃ instrs, last.instructions = state.instructions ++ instrs ∧ List.Forall₂ (Compiles labels) (emitted kindOf lines) instrs := by
  induction lines generalizing turn state with
  | nil =>
      cases returned
      exact ⟨[], (List.append_nil _).symm, List.Forall₂.nil⟩
  | cons line lines ih =>
      obtain ⟨next, first, rest⟩ := bind_returns _ _ last returned
      obtain ⟨instrs, written, compiled⟩ := second_pass_turn_returns labels (memory turn) state next line first
      obtain ⟨more, writtenMore, compiledMore⟩ := ih (turn + 1) next rest
      refine ⟨instrs ++ more, by rw [writtenMore, written, List.append_assoc], ?_⟩
      rw [← List.singleton_append, emitted_append]
      exact List.rel_append compiled compiledMore

theorem second_pass_append (memory : Nat → Memory) (turn : Nat) (front back : List Text) (state : SecondPass) :
    secondPass memory labels turn (front ++ back) state =
      (secondPass memory labels turn front state).bind (secondPass memory labels (turn + front.length) back) := by
  induction front generalizing turn state with
  | nil => rfl
  | cons line front ih =>
      rw [List.cons_append, secondPass, secondPass]
      cases secondPassTurn (memory turn) labels state line with
      | error failure => rfl
      | ok next =>
          show secondPass memory labels (turn + 1) (front ++ back) next = _
          rw [ih, List.length_cons, Nat.add_right_comm, Nat.add_assoc]
          rfl

theorem second_pass_turn_succeeds (memory : Memory) (state : SecondPass) (line : Text) (roomy : Roomy state)
    (realloc : memory.realloc = true) (malloc : memory.malloc = true)
    (understood : kindOf line = .instruction → ∀ rest, (parseLine ⟨visible line, rest⟩ labels).isSome) :
    ∃ next, secondPassTurn memory labels state line = .ok next ∧ next.instructions.length < next.capacity := by
  obtain ⟨_, failed⟩ | ⟨capacity, grows, room⟩ := grow_cases memory state
  · rw [realloc] at failed
    cases failed
  · have room := room roomy
    rw [second_pass_turn_eq, grows, Except.bind]
    by_cases instruction : kindOf line = .instruction
    · have parsed := understood instruction (removeComment (copyLine memory (lineArray line).text)).rest
      rw [← copy_line_visible memory line] at parsed
      obtain ⟨instr, parsed⟩ := Option.isSome_iff_exists.mp parsed
      refine ⟨_, by rw [if_pos instruction, emit, if_neg (by dsimp only; omega), if_pos malloc, parsed], ?_⟩
      rw [List.length_append, List.length_singleton]
      exact room
    · exact ⟨_, by rw [if_neg instruction], Nat.lt_of_succ_lt room⟩

theorem second_pass_succeeds (memory : Nat → Memory) (turn : Nat) (lines : List Text) (state : SecondPass) (roomy : Roomy state)
    (some : lines ≠ []) (realloc : ∀ i, (memory i).realloc = true) (malloc : ∀ i, (memory i).malloc = true)
    (understood : ∀ line ∈ lines, kindOf line = .instruction → ∀ rest, (parseLine ⟨visible line, rest⟩ labels).isSome) :
    ∃ last, secondPass memory labels turn lines state = .ok last ∧ last.instructions.length < last.capacity := by
  induction lines generalizing turn state with
  | nil => exact absurd rfl some
  | cons line lines ih =>
      obtain ⟨next, turned, room⟩ := second_pass_turn_succeeds labels (memory turn) state line roomy (realloc turn) (malloc turn)
        (understood line List.mem_cons_self)
      rw [secondPass, turned]
      cases lines with
      | nil => exact ⟨next, rfl, room⟩
      | cons other lines =>
          exact ih (turn + 1) next (Or.inl room) (List.cons_ne_nil _ _)
            (fun later member => understood later (List.mem_cons_of_mem _ member))

end SecondPass

end CpuEmulator.Assembler
