import CpuEmulator.Assembler.TwoPasses

set_option autoImplicit false

namespace CpuEmulator.Assembler

inductive GrowingArray where
  | instructions
  | instructionText
deriving DecidableEq, Repr

-- A write to one of the two arrays, with the capacity that its last realloc was
-- asked for. What realloc returns is below PTRDIFF_MAX bytes, so the products
-- with the sizes of the elements do not wrap.
structure ArrayWrite where
  array : GrowingArray
  index : Nat
  capacity : Nat
deriving DecidableEq, Repr

-- The pointer from malloc is stored before it is tested.
def emitWrites (memory : Memory) (labels : Labels) (state : SecondPass) (lineCopy : Buffer) : List ArrayWrite :=
  ⟨.instructionText, state.instructions.length, state.capacity⟩ ::
    if memory.malloc && (parseLine lineCopy labels).isSome then
      [⟨.instructions, state.instructions.length, state.capacity⟩]
    else []

def turnWrites (memory : Memory) (labels : Labels) (state : SecondPass) (line : Text) : List ArrayWrite :=
  match grow memory state with
  | .error _ => []
  | .ok state =>
      if hasText line then
        let lineCopy := removeComment (copyLine memory (lineArray line).text)
        if lineCopy.text.findIdx? (· == ':') = none ∧ isEmpty lineCopy.text = false then
          emitWrites memory labels state lineCopy
        else []
      else []

def secondPassWrites (memory : Nat → Memory) (labels : Labels) : Nat → List Text → SecondPass → List ArrayWrite
  | _, [], _ => []
  | turn, line :: lines, state =>
      turnWrites (memory turn) labels state line ++
        match secondPassTurn (memory turn) labels state line with
        | .error _ => []
        | .ok next => secondPassWrites memory labels (turn + 1) lines next

def haltWrites (memory : Memory) (state : SecondPass) : List ArrayWrite :=
  ⟨.instructionText, state.instructions.length, state.capacity⟩ ::
    if memory.malloc then [⟨.instructions, state.instructions.length, state.capacity⟩] else []

def arrayWrites (memory : Nat → Memory) : Option SourceFile → List ArrayWrite
  | none => []
  | some source =>
      match turns (source.bytes.length + 1) source.bytes with
      | .error _ => []
      | .ok lines =>
          secondPassWrites memory (firstPass lines).labels 0 lines ⟨[], [], 0⟩ ++
            match secondPass memory (firstPass lines).labels 0 lines ⟨[], [], 0⟩ with
            | .error _ => []
            | .ok last => haltWrites (memory lines.length) last

def indicesOf (array : GrowingArray) (writes : List ArrayWrite) : List Nat :=
  (writes.filter (fun write => write.array == array)).map ArrayWrite.index

theorem indices_append (array : GrowingArray) (first second : List ArrayWrite) :
    indicesOf array (first ++ second) = indicesOf array first ++ indicesOf array second := by
  rw [indicesOf, List.filter_append, List.map_append, indicesOf, indicesOf]

def InCapacity (writes : List ArrayWrite) : Prop := ∀ write ∈ writes, write.index < write.capacity

instance (writes : List ArrayWrite) : Decidable (InCapacity writes) := List.decidableBAll _ writes

theorem in_capacity_append (first second : List ArrayWrite) (one : InCapacity first) (two : InCapacity second) :
    InCapacity (first ++ second) := by
  intro write member
  rcases List.mem_append.mp member with early | late
  · exact one write early
  · exact two write late

inductive TurnWritten (state : SecondPass) : List ArrayWrite → Except Failure SecondPass → Prop where
  | failed (writes : List ArrayWrite) (failure : Failure) (bounded : InCapacity writes) : TurnWritten state writes (.error failure)
  | idle (capacity : Nat) (room : state.instructions.length < capacity) :
      TurnWritten state [] (.ok { state with capacity := capacity })
  | filled (capacity : Nat) (instr : Instruction) (text : Text) (room : state.instructions.length + 1 < capacity) :
      TurnWritten state
        [⟨.instructionText, state.instructions.length, capacity⟩, ⟨.instructions, state.instructions.length, capacity⟩]
        (.ok ⟨state.instructions ++ [instr], state.instructionText ++ [text], capacity⟩)

section Writes

variable (labels : Labels)

theorem emit_written (memory : Memory) (state : SecondPass) (capacity : Nat) (text : Text) (lineCopy : Buffer)
    (room : state.instructions.length + 1 < capacity) :
    TurnWritten state (emitWrites memory labels { state with capacity := capacity } lineCopy)
      (emit memory labels { state with capacity := capacity } text lineCopy) := by
  have inside : state.instructions.length < capacity := Nat.lt_of_succ_lt room
  have alone : InCapacity [⟨.instructionText, state.instructions.length, capacity⟩] := by
    intro write member
    rw [List.mem_singleton.mp member]
    exact inside
  rw [emitWrites, emit, if_neg (Nat.not_le.mpr inside)]
  cases memory.malloc with
  | false => exact .failed _ _ alone
  | true =>
      cases parseLine lineCopy labels with
      | none => exact .failed _ _ alone
      | some instr => exact .filled capacity instr _ room

theorem turn_written (memory : Memory) (state : SecondPass) (line : Text) (roomy : Roomy state) :
    TurnWritten state (turnWrites memory labels state line) (secondPassTurn memory labels state line) := by
  rw [turnWrites, secondPassTurn]
  obtain ⟨failed, _⟩ | ⟨capacity, grows, room⟩ := grow_cases memory state
  · rw [failed]
    exact .failed [] _ (fun write none => absurd none List.not_mem_nil)
  · rw [grows]
    dsimp only [Except.bind]
    have idle : TurnWritten state [] (.ok { state with capacity := capacity }) :=
      .idle capacity (Nat.lt_of_succ_lt (room roomy))
    split
    · split
      · exact emit_written labels memory state capacity _ _ (room roomy)
      · exact idle
    · exact idle

structure Even (state : SecondPass) : Prop where
  roomy : Roomy state
  same : state.instructionText.length = state.instructions.length

theorem written_in_capacity (state : SecondPass) (writes : List ArrayWrite) (outcome : Except Failure SecondPass)
    (written : TurnWritten state writes outcome) : InCapacity writes := by
  cases written with
  | failed _ _ bounded => exact bounded
  | idle => exact fun write none => absurd none List.not_mem_nil
  | filled capacity instr text room =>
      intro write member
      rcases List.mem_pair.mp member with rfl | rfl <;> exact Nat.lt_of_succ_lt room

theorem turn_filled (state next : SecondPass) (writes : List ArrayWrite) (written : TurnWritten state writes (.ok next))
    (same : state.instructionText.length = state.instructions.length) :
    Even next ∧ next.instructions.length < next.capacity ∧
      ∀ array, List.range state.instructions.length ++ indicesOf array writes = List.range next.instructions.length := by
  cases written with
  | idle capacity room => exact ⟨⟨Or.inl room, same⟩, room, fun array => List.append_nil _⟩
  | filled capacity instr text room =>
      have length : (state.instructions ++ [instr]).length = state.instructions.length + 1 := List.length_append
      refine ⟨⟨Or.inl ?_, ?_⟩, ?_, fun array => ?_⟩
      · rw [length]
        exact room
      · rw [length, List.length_append, same]
        rfl
      · rw [length]
        exact room
      · rw [length, List.range_succ]
        cases array <;> rfl

theorem second_pass_written (memory : Nat → Memory) (turn : Nat) (lines : List Text) (state : SecondPass) (even : Even state) :
    InCapacity (secondPassWrites memory labels turn lines state) ∧
      ∀ last, secondPass memory labels turn lines state = .ok last →
        last.instructionText.length = last.instructions.length ∧ (lines ≠ [] → last.instructions.length < last.capacity) ∧
          ∀ array, List.range state.instructions.length ++ indicesOf array (secondPassWrites memory labels turn lines state) =
            List.range last.instructions.length := by
  induction lines generalizing turn state with
  | nil =>
      refine ⟨fun write none => absurd none List.not_mem_nil, fun last passed => ?_⟩
      obtain rfl := Except.ok.inj passed
      exact ⟨even.same, fun some => absurd rfl some, fun array => List.append_nil _⟩
  | cons line lines ih =>
      have written := turn_written labels (memory turn) state line even.roomy
      have bounded := written_in_capacity state _ _ written
      rw [secondPassWrites, secondPass]
      cases turned : secondPassTurn (memory turn) labels state line with
      | error failure =>
          refine ⟨?_, fun last passed => by cases passed⟩
          rw [List.append_nil]
          exact bounded
      | ok next =>
          rw [turned] at written
          obtain ⟨filled, room, indices⟩ := turn_filled state next _ written even.same
          obtain ⟨rest, ends⟩ := ih (turn + 1) next filled
          refine ⟨in_capacity_append _ _ bounded rest, fun last passed => ?_⟩
          obtain ⟨same, later, more⟩ := ends last passed
          refine ⟨same, fun _ => ?_, fun array => ?_⟩
          · cases lines with
            | nil =>
                obtain rfl := Except.ok.inj passed
                exact room
            | cons other lines => exact later (List.cons_ne_nil _ _)
          · rw [indices_append, ← List.append_assoc, indices array, more array]

theorem halt_written (memory : Memory) (last : SecondPass) (room : last.instructions.length < last.capacity)
    (same : last.instructionText.length = last.instructions.length) :
    InCapacity (haltWrites memory last) ∧ ∀ program, appendHalt memory last = .ok program →
      program.instructionText.length = program.instructions.length ∧
        ∀ array, List.range last.instructions.length ++ indicesOf array (haltWrites memory last) =
          List.range program.instructions.length := by
  rw [haltWrites, appendHalt, if_neg (Nat.not_le.mpr room)]
  cases memory.malloc with
  | false =>
      refine ⟨fun write member => ?_, fun program returned => by cases returned⟩
      rw [List.mem_singleton.mp member]
      exact room
  | true =>
      refine ⟨fun write member => ?_, fun program returned => ?_⟩
      · rcases List.mem_pair.mp member with rfl | rfl <;> exact room
      · obtain rfl := Except.ok.inj returned
        refine ⟨?_, fun array => ?_⟩
        · rw [List.length_append, List.length_append, same]
          rfl
        · rw [List.length_append, List.length_singleton, List.range_succ]
          cases array <;> rfl

end Writes

theorem returned_even (memory : Nat → Memory) (source : SourceFile) (program : Program)
    (returned : parseAssembly memory (some source) = .ok program) : program.instructionText.length = program.instructions.length := by
  obtain ⟨lines, turned, some, _, _⟩ := turns_end _ source.bytes (Nat.lt_succ_self _)
  rw [parseAssembly, turned, Except.bind] at returned
  obtain ⟨last, passed, halted⟩ := bind_returns _ _ program returned
  obtain ⟨same, room, _⟩ := (second_pass_written (firstPass lines).labels memory 0 lines ⟨[], [], 0⟩ ⟨Or.inr ⟨rfl, rfl⟩, rfl⟩).2 last passed
  exact ((halt_written (memory lines.length) last (room some) same).2 program halted).1

-- Whatever the lines are and whatever memory there is; a program that is
-- returned has both its arrays filled from front to back.
theorem array_writes_in_capacity (memory : Nat → Memory) (source : Option SourceFile) :
    InCapacity (arrayWrites memory source) ∧ ∀ program, parseAssembly memory source = .ok program →
      program.instructionText.length = program.instructions.length ∧
        ∀ array, indicesOf array (arrayWrites memory source) = List.range program.instructions.length := by
  cases source with
  | none => exact ⟨fun write none => absurd none List.not_mem_nil, fun program returned => by cases returned⟩
  | some source =>
      obtain ⟨lines, turned, some, _, _⟩ := turns_end _ source.bytes (Nat.lt_succ_self _)
      obtain ⟨bounded, ends⟩ := second_pass_written (firstPass lines).labels memory 0 lines ⟨[], [], 0⟩
        ⟨Or.inr ⟨rfl, rfl⟩, rfl⟩
      rw [arrayWrites, parseAssembly, turned]
      dsimp only [Except.bind]
      cases passed : secondPass memory (firstPass lines).labels 0 lines ⟨[], [], 0⟩ with
      | error failure =>
          refine ⟨?_, fun program returned => by cases returned⟩
          rw [List.append_nil]
          exact bounded
      | ok last =>
          obtain ⟨same, room, indices⟩ := ends last passed
          obtain ⟨final, halted⟩ := halt_written (memory lines.length) last (room some) same
          refine ⟨in_capacity_append _ _ bounded final, fun program returned => ?_⟩
          obtain ⟨even, more⟩ := halted program returned
          refine ⟨even, fun array => ?_⟩
          rw [indices_append, ← more array, ← indices array]
          rfl

theorem array_writes_in_capacity_growing :
    (InCapacity (arrayWrites (fun _ => ⟨true, true, []⟩) (some ⟨(List.replicate 4 ['A', 'D', 'D', ' ', 'R', '0', '\n']).flatten, by decide⟩)) ∧
      ∀ array, indicesOf array (arrayWrites (fun _ => ⟨true, true, []⟩)
        (some ⟨(List.replicate 4 ['A', 'D', 'D', ' ', 'R', '0', '\n']).flatten, by decide⟩)) = [0, 1, 2, 3, 4]) ∧
    ∀ array, indicesOf array (arrayWrites (fun _ => ⟨true, true, []⟩) (some ⟨[], by decide⟩)) = [0] := by
  obtain ⟨bounded, filled⟩ := array_writes_in_capacity (fun _ => ⟨true, true, []⟩)
    (some ⟨(List.replicate 4 ['A', 'D', 'D', ' ', 'R', '0', '\n']).flatten, by decide⟩)
  obtain ⟨_, alone⟩ := array_writes_in_capacity (fun _ => ⟨true, true, []⟩) (some ⟨[], by decide⟩)
  exact ⟨⟨bounded, (filled _ rfl).2⟩, (alone ⟨[haltInstr], [haltText]⟩ rfl).2⟩

end CpuEmulator.Assembler
