import CpuEmulator.Assembler.Branches
import Mathlib.Data.List.Induction

set_option autoImplicit false

namespace CpuEmulator.Assembler

-- A line of a MOV by its operands; none is a NULL field.
def MovLine (line : Buffer) (first second : Option Text) : Prop :=
  splitByChar (replaceComma line) ' ' = some ⟨some (mnemonic .mov), first, second⟩

instance (line : Buffer) (first second : Option Text) : Decidable (MovLine line first second) :=
  inferInstanceAs (Decidable (_ = _))

def literalOf (operand : Text) : Option U64 :=
  if isBracketed operand then some (strtoull 16 (unbracketed operand)).value else parseInt operand

section Operands

theorem layout_mov_line (layout : Layout) (rest first second : Text) (word1 : IsWord first) (filled2 : second ≠ [])
    (inField2 : ∀ c ∈ second, endsField c = false) :
    MovLine ⟨layout.line .mov first (some second), rest⟩ (some first) (some second) :=
  split_two_fields layout .mov rest first second word1 filled2 inField2

theorem bracketed_iff (operand : Text) : isBracketed operand = true ↔ ∃ text, operand = bracket text := by
  constructor
  · intro bracketed
    rw [isBracketed, Bool.and_eq_true, beq_iff_eq, beq_iff_eq] at bracketed
    obtain ⟨head, last⟩ := bracketed
    cases operand with
    | nil => cases head
    | cons c more =>
        cases Option.some.inj head
        cases more using List.reverseRecOn with
        | nil => cases last
        | append_singleton text d =>
            rw [← List.cons_append, List.getLast?_append, List.getLast?_singleton] at last
            cases Option.some.inj last
            exact ⟨text, rfl⟩
  · rintro ⟨text, rfl⟩
    exact bracket_bracketed text

theorem register_of_some (operand : Text) (reg : Fin 4) : registerOf operand = some reg ↔ operand = registerName reg := by
  constructor
  · intro found
    exact (eq_of_beq (List.find?_eq_some_iff_append.mp found).1).symm
  · rintro rfl
    exact register_of_name reg

theorem parse_operand2_value (instr : Instruction) (operand : Text) : (parseOperand2 instr operand).operand2 =
    match registerOf operand with
    | some reg => BitVec.ofNat 64 reg.val
    | none => (literalOf operand).getD instr.operand2 := by
  rw [parseOperand2, literalOf]
  cases registerOf operand with
  | some reg => rfl
  | none =>
      cases isBracketed operand with
      | true => rfl
      | false => cases parseInt operand <;> rfl

theorem parse_operand1_store (instr : Instruction) (text : Text) : defaultMode (parseOperand1 instr (bracket text)) =
    { instr with
      mode := Mode.directStore.code
      operand1 := instr.operand2.setWidth 8
      operand2 := (strtoull 16 text).value } := by
  have chosen : Mode.directStore.code ≠ uint8Max := by decide
  rw [parseOperand1, bracket_not_register]
  dsimp only
  rw [if_pos (bracket_bracketed text), bracket_unbracketed, defaultMode, if_neg chosen]

variable (line : Buffer) (labels : Labels) (first second : Option Text)

def movInstr : Instruction := ⟨uint64Max, uint8Max, Opcode.mov.code, uint8Max⟩

theorem parse_mov (mov : MovLine line first second) :
    parseLine line labels = parseOperands movInstr ⟨some (mnemonic .mov), first, second⟩ := by
  rw [parseLine, mov]
  rfl

end Operands

section Stores

variable (line : Buffer) (labels : Labels)

theorem parse_store_line (text operand : Text) (mov : MovLine line (some (bracket text)) (some operand)) :
    parseLine line labels = some
      ⟨(strtoull 16 text).value, (parseOperand2 movInstr operand).operand2.setWidth 8, Opcode.mov.code, Mode.directStore.code⟩ := by
  rw [parse_mov line labels _ _ mov, parseOperands, Option.some_or, Option.map_some]
  dsimp only
  rw [parse_operand1_store, parse_operand2_opcode]
  rfl

-- A store takes the register from the low byte of whatever the second operand
-- was converted to.
theorem store_register_written_iff (text operand : Text) (mov : MovLine line (some (bracket text)) (some operand)) :
    ∃ instr, parseLine line labels = some instr ∧
      ((instr.opcode = Opcode.mov.code → instr.mode = Mode.directStore.code → instr.operand1.toNat ≤ 3 →
          ∃ reg : Fin 4, operand = registerName reg ∧ instr.operand1 = BitVec.ofNat 8 reg.val) ↔
        ((∀ reg, operand ≠ registerName reg) → ∀ value, literalOf operand = some value → 3 < (value.setWidth 8).toNat)) := by
  refine ⟨_, parse_store_line line labels text operand mov, ?_⟩
  have value := parse_operand2_value movInstr operand
  have narrow : ∀ reg : Fin 4, (BitVec.ofNat 64 reg.val).setWidth 8 = BitVec.ofNat 8 reg.val := by decide
  dsimp only
  rw [value]
  cases named : registerOf operand with
  | some reg =>
      have same := (register_of_some operand reg).mp named
      exact iff_of_true (fun _ _ _ => ⟨reg, same, narrow reg⟩) (fun other => absurd same (other reg))
  | none =>
      have other (reg : Fin 4) (same : operand = registerName reg) : False := by
        rw [(register_of_some operand reg).mpr same] at named
        cases named
      dsimp only
      constructor
      · intro written _ value converted
        by_contra small
        rw [converted, Option.getD_some] at written
        obtain ⟨reg, same, _⟩ := written rfl rfl (Nat.not_lt.mp small)
        exact other reg same
      · intro large _ _ small
        cases converted : literalOf operand with
        | none =>
            rw [converted] at small
            exact absurd small (by decide)
        | some value =>
            rw [converted, Option.getD_some] at small
            exact absurd small (Nat.not_le.mpr (large other value converted))

theorem store_register_written_iff_r1 :
    ∃ instr, parseLine ⟨['M', 'O', 'V', ' ', '[', '1', '0', ']', ',', ' ', 'R', '1', '\n'], []⟩ hashMakeTable = some instr ∧
      ((instr.opcode = Opcode.mov.code → instr.mode = Mode.directStore.code → instr.operand1.toNat ≤ 3 →
          ∃ reg : Fin 4, ['R', '1'] = registerName reg ∧ instr.operand1 = BitVec.ofNat 8 reg.val) ↔
        ((∀ reg, ['R', '1'] ≠ registerName reg) →
          ∀ value, literalOf ['R', '1'] = some value → 3 < (value.setWidth 8).toNat)) :=
  store_register_written_iff _ hashMakeTable ['1', '0'] ['R', '1'] (by decide)

-- MOV [10], 2 becomes a store of R2.
theorem literal_stored_as_register :
    ¬ ∀ (line : Buffer) (labels : Labels) (text operand : Text) (instr : Instruction),
      MovLine line (some (bracket text)) (some operand) → parseLine line labels = some instr →
      instr.opcode = Opcode.mov.code → instr.mode = Mode.directStore.code → instr.operand1.toNat ≤ 3 →
      ∃ reg : Fin 4, operand = registerName reg ∧ instr.operand1 = BitVec.ofNat 8 reg.val := by
  intro claimed
  obtain ⟨reg, same, _⟩ := claimed ⟨['M', 'O', 'V', ' ', '[', '1', '0', ']', ',', ' ', '2', '\n'], []⟩ hashMakeTable ['1', '0'] ['2']
    ⟨16, 2, Opcode.mov.code, Mode.directStore.code⟩ (by decide) (by decide) rfl rfl (by decide)
  revert reg
  decide

end Stores

section Addresses

variable (line : Buffer) (labels : Labels) (first second : Option Text) (text : Text)

theorem parse_operand2_load (instr : Instruction) : parseOperand2 instr (bracket text) =
    { instr with mode := Mode.directLoad.code, operand2 := (strtoull 16 text).value } := by
  rw [parseOperand2, bracket_not_register]
  dsimp only
  rw [if_pos (bracket_bracketed text), bracket_unbracketed]

theorem parse_operand1_other (instr : Instruction) (operand : Text) (plain : isBracketed operand = false) :
    (parseOperand1 instr operand).mode = instr.mode ∧ (parseOperand1 instr operand).operand2 = instr.operand2 := by
  rw [parseOperand1]
  cases registerOf operand with
  | some reg => exact ⟨rfl, rfl⟩
  | none =>
      dsimp only
      rw [plain]
      exact ⟨rfl, rfl⟩

theorem parse_address_line (mov : MovLine line first second) (operand : first = some (bracket text) ∨ second = some (bracket text)) :
    ∃ instr, parseLine line labels = some instr ∧
      (instr.mode = Mode.directLoad.code ∨ instr.mode = Mode.directStore.code) ∧
      ((∃ inner, first = some (bracket inner) ∧ instr.operand2 = (strtoull 16 inner).value) ∨
        (∀ inner, first ≠ some (bracket inner)) ∧ instr.operand2 = (strtoull 16 text).value) := by
  have chosen : Mode.directLoad.code ≠ uint8Max := by decide
  rw [parse_mov line labels first second mov, parseOperands]
  cases first with
  | none =>
      obtain none | load := operand
      · cases none
      · refine ⟨_, by rw [load]; rfl, Or.inl ?_, Or.inr ⟨fun _ same => (by cases same), ?_⟩⟩ <;> dsimp only <;>
          rw [parse_operand2_load]
  | some word =>
      cases bracketed : isBracketed word with
      | true =>
          obtain ⟨inner, rfl⟩ := (bracketed_iff word).mp bracketed
          obtain ⟨operand2, found⟩ : ∃ operand2, second.or (some (bracket inner)) = some operand2 := by
            cases second with
            | none => exact ⟨_, rfl⟩
            | some operand2 => exact ⟨operand2, rfl⟩
          refine ⟨_, by rw [found]; rfl, Or.inr ?_, Or.inl ⟨inner, rfl, ?_⟩⟩ <;> dsimp only <;> rw [parse_operand1_store]
      | false =>
          have other (inner : Text) (same : some word = some (bracket inner)) : False := by
            rw [Option.some.inj same, bracket_bracketed] at bracketed
            cases bracketed
          obtain same | load := operand
          · exact (other text same).elim
          · obtain ⟨mode, address⟩ := parse_operand1_other (parseOperand2 movInstr (bracket text)) word bracketed
            rw [parse_operand2_load] at mode address
            have kept : defaultMode (parseOperand1 (parseOperand2 movInstr (bracket text)) word) =
                parseOperand1 (parseOperand2 movInstr (bracket text)) word := by
              rw [defaultMode, parse_operand2_load, if_neg (by rw [mode]; exact chosen)]
            refine ⟨_, by rw [load]; rfl, Or.inl ?_, Or.inr ⟨other, ?_⟩⟩ <;> dsimp only <;> rw [kept, parse_operand2_load]
            · exact mode
            · exact address

-- A bracketed operand is never refused, so its text has to be an address
-- already; beside a bracketed first operand, also the same one.
theorem address_read_completely_iff (mov : MovLine line first second)
    (operand : first = some (bracket text) ∨ second = some (bracket text)) :
    ∃ instr, parseLine line labels = some instr ∧
      ((instr.mode = Mode.directLoad.code ∨ instr.mode = Mode.directStore.code →
          ∃ address : Address, address.inner = text ∧ instr.operand2 = address.value) ↔
        (∃ address : Address, address.inner = text) ∧
          ∀ inner, first = some (bracket inner) → (strtoull 16 inner).value = (strtoull 16 text).value) := by
  obtain ⟨instr, parsed, mode, encoded⟩ := parse_address_line line labels first second text mov operand
  refine ⟨instr, parsed, ?_⟩
  have value (address : Address) (same : address.inner = text) : (strtoull 16 text).value = address.value := by
    rw [← same, strtoull_address]
  constructor
  · intro complete
    obtain ⟨address, same, operand2⟩ := complete mode
    refine ⟨⟨address, same⟩, fun inner begins => ?_⟩
    obtain ⟨outer, stored, encoded⟩ | ⟨other, _⟩ := encoded
    · rw [begins] at stored
      have inside := congrArg unbracketed (Option.some.inj stored)
      rw [bracket_unbracketed, bracket_unbracketed] at inside
      rw [inside, ← encoded, operand2, value address same]
    · exact (other inner begins).elim
  · rintro ⟨⟨address, same⟩, agree⟩ _
    refine ⟨address, same, ?_⟩
    obtain ⟨inner, stored, encoded⟩ | ⟨_, encoded⟩ := encoded
    · rw [encoded, agree inner stored, value address same]
    · rw [encoded, value address same]

theorem address_read_completely_iff_load :
    ∃ instr, parseLine ⟨['M', 'O', 'V', ' ', 'R', '1', ',', ' ', '[', '1', '0', ']', '\n'], []⟩ hashMakeTable = some instr ∧
      ((instr.mode = Mode.directLoad.code ∨ instr.mode = Mode.directStore.code →
          ∃ address : Address, address.inner = ['1', '0'] ∧ instr.operand2 = address.value) ↔
        (∃ address : Address, address.inner = ['1', '0']) ∧ ∀ inner, some ['R', '1'] = some (bracket inner) →
          (strtoull 16 inner).value = (strtoull 16 ['1', '0']).value) :=
  address_read_completely_iff _ hashMakeTable (some ['R', '1']) (some (bracket ['1', '0'])) ['1', '0'] (by decide) (Or.inr rfl)

theorem register_name_no_address (address : Address) : address.inner ≠ ['R', '1'] := by
  intro same
  have valid := address.numeral.valid
  rw [Address.inner] at same
  cases marked : address.marker with
  | bare =>
      rw [marked] at same
      have digits : address.numeral.digits = ['R', '1'] := same
      exact absurd (valid 'R' (digits ▸ List.mem_cons_self)) (by decide)
  | lower | upper =>
      rw [marked] at same
      cases same

-- MOV R0, [R1] becomes a load from address 0.
theorem register_name_becomes_address :
    ¬ ∀ (line : Buffer) (labels : Labels) (first second : Option Text) (text : Text) (instr : Instruction),
      MovLine line first second → first = some (bracket text) ∨ second = some (bracket text) →
      parseLine line labels = some instr → instr.mode = Mode.directLoad.code ∨ instr.mode = Mode.directStore.code →
      ∃ address : Address, address.inner = text ∧ instr.operand2 = address.value := by
  intro claimed
  obtain ⟨address, same, _⟩ := claimed
    ⟨['M', 'O', 'V', ' ', 'R', '0', ',', ' ', '[', 'R', '1', ']', '\n'], []⟩ hashMakeTable (some ['R', '0']) (some (bracket ['R', '1']))
    ['R', '1'] ⟨0, 0, Opcode.mov.code, Mode.directLoad.code⟩ (by decide) (Or.inr rfl) (by decide) (Or.inl rfl)
  exact register_name_no_address address same

end Addresses

end CpuEmulator.Assembler
