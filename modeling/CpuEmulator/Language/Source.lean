import CpuEmulator.Assembler.TwoPasses
import CpuEmulator.Isa
import CpuEmulator.Library.Continuations

set_option autoImplicit false

namespace CpuEmulator.Language

open Library Library.Addresses Assembler

-- A source as its author reads it: label lines and statements in their order.
-- text is the line of the statement as it stands in the file.
inductive Item where
  | label (name : Text)
  | statement (statement : Statement) (text : Text)

def Item.kind : Item → Kind Text
  | .label name => .label name
  | .statement _ _ => .instruction

-- The machine that the statements are about. It knows no addresses of code:
-- what is left to do is a part of the source, and a comparison leaves an order.
structure SourceState where
  regs : Fin 4 → U64
  compared : Ordering
  memory : Nat → U8
  rest : List Item

inductive SourceStop where
  | finished (st : SourceState)
  | rejected (st : SourceState)
  | unlabelled (st : SourceState)

abbrev SourceProgress := Progress SourceState SourceStop

-- A program that has compared nothing finds its operands in the order of JG.
def sourceStart (memory : Nat → U8) (items : List Item) : SourceState := ⟨fun _ => 0, .gt, memory, items⟩

def nextStatement : List Item → Option (Statement × Text × List Item)
  | [] => none
  | .label _ :: rest => nextStatement rest
  | .statement statement text :: rest => some (statement, text, rest)

def SourceState.set (st : SourceState) (register : Fin 4) (value : U64) : SourceState :=
  { st with regs := Function.update st.regs register value }

def orderOf (difference : U64) : Ordering :=
  if difference = 0 then .eq else if difference.toInt < 0 then .lt else .gt

def SourceState.operate (st : SourceState) (op : Opcode) (first : Fin 4) (value : U64) : SourceState :=
  match op with
  | .add => st.set first (st.regs first + value)
  | .sub => st.set first (st.regs first - value)
  | .and => st.set first (st.regs first &&& value)
  | .or => st.set first (st.regs first ||| value)
  | .cmp => { st with compared := orderOf (st.regs first - value) }
  | _ => st.set first value

def branches (op : Opcode) (compared : Ordering) : Bool :=
  match op with
  | .je => compared == .eq
  | .jg => compared == .gt
  | .jl => compared == .lt
  | _ => true

def perform (items : List Item) (input : U64) (st : SourceState) : Statement → SourceProgress
  | .registers op first second => .running (st.operate op.val first (st.regs second))
  | .literal op first value => .running (st.operate op.val first value.value)
  | .load target address =>
      if address.value < Isa.dataLimit then
        .running (st.set target (leWord 64 (fun i => st.memory (address.value.toNat + i)) 8))
      else if address.value = Isa.inputAddr then .running (st.set target input)
      else .stopped (.rejected st)
  | .store address source =>
      if address.value = Isa.haltAddr then .stopped (.finished st)
      else if address.value < Isa.dataLimit then
        .running { st with memory := writeCells st.memory address.value.toNat (leByte (st.regs source)) 8 }
      else if address.value = Isa.outputAddr ∧ (st.regs source = 0 ∨ st.regs source = 1) then .running st
      else .stopped (.rejected st)
  | .negate register => .running (st.set register (~~~st.regs register))
  | .branch op label =>
      if branches op.val st.compared then
        match after Item.kind label.name items with
        | none => .stopped (.unlabelled st)
        | some rest => .running { st with rest := rest }
      else .running st

def sourceStep (items : List Item) (input : U64) (st : SourceState) : SourceProgress :=
  match nextStatement st.rest with
  | none => .stopped (.finished st)
  | some (statement, _, rest) => perform items input { st with rest := rest } statement

def sourceRun (items : List Item) (inputs : Nat → U64) (memory : Nat → U8) : Nat → SourceProgress :=
  Progress.iterate (fun k => sourceStep items (inputs k)) (.running (sourceStart memory items))

theorem operate_rest (st : SourceState) (op : Opcode) (first : Fin 4) (value : U64) : (st.operate op first value).rest = st.rest := by
  cases op <;> rfl

theorem perform_rest (items : List Item) (input : U64) (st next : SourceState) (statement : Statement)
    (ran : perform items input st statement = .running next) :
    next.rest = st.rest ∨ ∃ op label, statement = .branch op label ∧ after Item.kind label.name items = some next.rest := by
  cases statement with
  | registers op first second | literal op first value =>
      obtain rfl := Progress.running.inj ran
      exact Or.inl (operate_rest st _ _ _)
  | negate register =>
      obtain rfl := Progress.running.inj ran
      exact Or.inl rfl
  | load target address =>
      rw [perform] at ran
      split at ran
      · obtain rfl := Progress.running.inj ran
        exact Or.inl rfl
      · split at ran
        · obtain rfl := Progress.running.inj ran
          exact Or.inl rfl
        · cases ran
  | store address source =>
      rw [perform] at ran
      split at ran
      · cases ran
      · split at ran
        · obtain rfl := Progress.running.inj ran
          exact Or.inl rfl
        · split at ran
          · obtain rfl := Progress.running.inj ran
            exact Or.inl rfl
          · cases ran
  | branch op label =>
      rw [perform] at ran
      split at ran
      · cases found : after Item.kind label.name items with
        | none =>
            rw [found] at ran
            cases ran
        | some rest =>
            rw [found] at ran
            obtain rfl := Progress.running.inj ran
            exact Or.inr ⟨op, label, rfl, found⟩
      · obtain rfl := Progress.running.inj ran
        exact Or.inl rfl

def stepText (st : SourceState) : Text := ((nextStatement st.rest).map (fun next => next.2.1)).getD haltText

def statementsOf : List Item → List Statement
  | [] => []
  | .label _ :: rest => statementsOf rest
  | .statement statement _ :: rest => statement :: statementsOf rest

def textsOf : List Item → List Text
  | [] => []
  | .label _ :: rest => textsOf rest
  | .statement _ text :: rest => text :: textsOf rest

-- Every branch has its label, and loads and stores of data keep off the first
-- bytes of the memory.
structure Closed (items : List Item) : Prop where
  labelled : ∀ op label, .branch op label ∈ statementsOf items → ∃ item ∈ items, item.kind = .label label.name

structure Above (items : List Item) (bytes : Nat) : Prop where
  loads : ∀ target address, .load target address ∈ statementsOf items → address.value < Isa.dataLimit →
    bytes ≤ address.value.toNat
  stores : ∀ address source, .store address source ∈ statementsOf items → address.value < Isa.dataLimit →
    bytes ≤ address.value.toNat

section Items

variable (items rest : List Item)

theorem statements_of_append (front back : List Item) : statementsOf (front ++ back) = statementsOf front ++ statementsOf back := by
  induction front with
  | nil => rfl
  | cons item front ih =>
      cases item with
      | label name => exact ih
      | statement statement text => exact congrArg (statement :: ·) ih

theorem texts_of_append (front back : List Item) : textsOf (front ++ back) = textsOf front ++ textsOf back := by
  induction front with
  | nil => rfl
  | cons item front ih =>
      cases item with
      | label name => exact ih
      | statement statement text => exact congrArg (text :: ·) ih

theorem texts_of_length : (textsOf items).length = (statementsOf items).length := by
  induction items with
  | nil => rfl
  | cons item items ih =>
      cases item with
      | label name => exact ih
      | statement statement text => exact congrArg (· + 1) ih

theorem emitted_items : (emitted Item.kind items).length = (statementsOf items).length := by
  induction items with
  | nil => rfl
  | cons item items ih =>
      cases item with
      | label name => exact (congrArg List.length (emitted_other Item.kind _ items (fun same => by cases same))).trans ih
      | statement statement text =>
          rw [emitted_instruction Item.kind _ items rfl, List.length_cons, ih]
          rfl

theorem next_statement_none (none : nextStatement items = none) : statementsOf items = [] := by
  induction items with
  | nil => rfl
  | cons item items ih =>
      cases item with
      | label name => exact ih none
      | statement statement text => cases none

theorem next_statement_some (statement : Statement) (text : Text)
    (next : nextStatement items = some (statement, text, rest)) :
    statementsOf items = statement :: statementsOf rest ∧ textsOf items = text :: textsOf rest ∧ rest <:+ items := by
  induction items with
  | nil => cases next
  | cons item items ih =>
      cases item with
      | label name =>
          obtain ⟨same, named, suffix⟩ := ih next
          exact ⟨same, named, suffix.trans (List.suffix_cons _ items)⟩
      | statement other line =>
          obtain ⟨rfl, rfl, rfl⟩ : other = statement ∧ line = text ∧ items = rest := by
            cases next
            exact ⟨rfl, rfl, rfl⟩
          exact ⟨rfl, rfl, List.suffix_cons _ items⟩

def place : Nat := (statementsOf items).length - (statementsOf rest).length

theorem suffix_place (suffix : rest <:+ items) :
    (statementsOf items).drop (place items rest) = statementsOf rest ∧ place items rest ≤ (statementsOf items).length ∧
      (textsOf items).drop (place items rest) = textsOf rest := by
  obtain ⟨front, rfl⟩ := suffix
  have numbered : place (front ++ rest) rest = (statementsOf front).length := by
    rw [place, statements_of_append, List.length_append, Nat.add_sub_cancel]
  rw [numbered, statements_of_append, texts_of_append]
  refine ⟨List.drop_left, ?_, ?_⟩
  · rw [List.length_append]
    exact Nat.le_add_right _ _
  · rw [← texts_of_length]
    exact List.drop_left

end Items

end CpuEmulator.Language
