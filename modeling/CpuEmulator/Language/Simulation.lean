import CpuEmulator.Language.Compilation

set_option autoImplicit false

namespace CpuEmulator.Language

open Library Assembler Isa

def flagsOf : Ordering → U16
  | .eq => flagZf
  | .lt => flagSf ||| flagCf
  | .gt => 0

-- The part of the two states that is not about where control stands. The first
-- bytes of the machine's memory hold the code.
structure SameData (bytes : Nat) (m : Machine) (st : SourceState) : Prop where
  regs : m.regs = st.regs
  flags : m.fr = flagsOf st.compared
  memory : ∀ x, bytes ≤ x → m.memory x = st.memory x

structure Simulates (items : List Item) (bytes : Nat) (m : Machine) (st : SourceState) : Prop where
  data : SameData bytes m st
  here : st.rest <:+ items
  pc : m.pc.toNat = place items st.rest * instrSize

inductive Ends (bytes : Nat) : Stop → SourceStop → Prop where
  | halted (m : Machine) (st : SourceState) (data : SameData bytes m st) : Ends bytes (.halted m) (.finished st)
  | rejected (m : Machine) (st : SourceState) (data : SameData bytes m st) : Ends bytes (.rejected m) (.rejected st)

abbrev Follows (items : List Item) (bytes : Nat) : Outcome → SourceProgress → Prop :=
  Progress.Related (Simulates items bytes) (Ends bytes)

theorem compare_flags_order (difference : U64) : compareFlags difference = flagsOf (orderOf difference) := by
  simp only [compareFlags, orderOf]
  split
  · rfl
  · split <;> rfl

def conditionOf : Opcode → Condition
  | .je => .equal
  | .jg => .greater
  | .jl => .less
  | _ => .always

theorem condition_holds (op : Opcode) (jumps : op.isBranch = true) (compared : Ordering) :
    (conditionOf op).holds (flagsOf compared) = branches op compared := by
  cases op with
  | jmp | je | jg | jl => cases compared <;> rfl
  | add | sub | and | or | not | mov | cmp => cases jumps

section Decoding

def twoOperand (op : Opcode) (first : Fin 4) (second : Isa.Source) : Instr :=
  match op with
  | .add => .assign (· + ·) first second
  | .sub => .assign (· - ·) first second
  | .and => .assign (· &&& ·) first second
  | .or => .assign (· ||| ·) first second
  | .cmp => .compare first second
  | _ => .assign (fun _ value => value) first second

theorem register_byte : ∀ first : Fin 4, register (BitVec.ofNat 8 first.val).toNat = some first := by decide

theorem register_word : ∀ second : Fin 4, register (BitVec.ofNat 64 second.val).toNat = some second := by decide

theorem decode_registers (op : Opcode) (two : takesTwo op = true) (first second : Fin 4) :
    decode ⟨BitVec.ofNat 64 second.val, BitVec.ofNat 8 first.val, op.code, Mode.register.code⟩ =
      some (twoOperand op first (.reg second)) := by
  have mode : modeOf Mode.register.code = some .register := rfl
  cases op with
  | add | sub | and | or | mov | cmp =>
      simp only [decode, opcode_of_code, mode, binary, source, register_byte, register_word]
      rfl
  | not | jmp | je | jg | jl => cases two

theorem decode_literal (op : Opcode) (two : takesTwo op = true) (first : Fin 4) (value : U64) :
    decode ⟨value, BitVec.ofNat 8 first.val, op.code, Mode.immediate.code⟩ = some (twoOperand op first (.imm value)) := by
  have mode : modeOf Mode.immediate.code = some .immediate := rfl
  cases op with
  | add | sub | and | or | mov | cmp =>
      simp only [decode, opcode_of_code, mode, binary, source, register_byte]
      rfl
  | not | jmp | je | jg | jl => cases two

theorem decode_load_instr (target : Fin 4) (address : U64) :
    decode ⟨address, BitVec.ofNat 8 target.val, Opcode.mov.code, Mode.directLoad.code⟩ =
      if address < dataLimit then some (.load target address)
      else if address = inputAddr then some (.input target) else none := by
  have mode : modeOf Mode.directLoad.code = some .directLoad := rfl
  simp only [decode, opcode_of_code, mode, decodeLoad, register_byte]

theorem decode_store_instr (source : Fin 4) (address : U64) :
    decode ⟨address, BitVec.ofNat 8 source.val, Opcode.mov.code, Mode.directStore.code⟩ =
      if address = haltAddr then some .halt
      else if address < dataLimit then some (.store source address)
      else if address = outputAddr then some (.output source) else none := by
  have mode : modeOf Mode.directStore.code = some .directStore := rfl
  simp only [decode, opcode_of_code, mode, decodeStore, register_byte]

theorem decode_negate (instr : Instruction) (register : Fin 4) (opcode : instr.opcode = Opcode.not.code)
    (mode : instr.mode = Mode.register.code) (operand : instr.operand2 = BitVec.ofNat 64 register.val) :
    decode instr = some (.not register) := by
  have known : modeOf Mode.register.code = some .register := rfl
  simp only [decode, opcode, opcode_of_code, mode, known, operand, register_word, if_true, Option.map_some]

theorem decode_branch (op : Opcode) (jumps : op.isBranch = true) (instr : Instruction) (opcode : instr.opcode = op.code) :
    decode instr = some (.jump (conditionOf op) instr.operand2) := by
  cases op with
  | jmp | je | jg | jl =>
      simp only [decode, opcode, opcode_of_code]
      rfl
  | add | sub | and | or | not | mov | cmp => cases jumps

end Decoding

section Data

variable (bytes : Nat) (m : Machine) (st : SourceState) (data : SameData bytes m st)

include data

theorem set_same (register : Fin 4) (value : U64) : SameData bytes (m.set register value).advance (st.set register value) where
  regs := by
    change Function.update m.regs register value = Function.update st.regs register value
    rw [data.regs]
  flags := data.flags
  memory := data.memory

theorem operate_same (op : Opcode) (first : Fin 4) (second : Isa.Source) (input value : U64) (read : m.value second = value) :
    ∃ m', execute input m (twoOperand op first second) = .running m' ∧ m'.pc = m.pc + BitVec.ofNat 64 instrSize ∧
      SameData bytes m' (st.operate op first value) := by
  have old : m.regs first = st.regs first := congrFun data.regs first
  cases op with
  | cmp =>
      refine ⟨{ m with fr := compareFlags (m.regs first - m.value second) }.advance, rfl, rfl, data.regs, ?_, data.memory⟩
      change compareFlags (m.regs first - m.value second) = flagsOf (orderOf (st.regs first - value))
      rw [compare_flags_order, old, read]
  | add | sub | and | or | not | mov | jmp | je | jg | jl =>
      refine ⟨_, rfl, rfl, ?_⟩
      rw [read, old]
      exact set_same bytes m st data first _

theorem store_same (source : Fin 4) (address : U64) :
    SameData bytes { m with memory := writeCells m.memory address.toNat (leByte (m.regs source)) 8 }.advance
      { st with memory := writeCells st.memory address.toNat (leByte (st.regs source)) 8 } where
  regs := data.regs
  flags := data.flags
  memory := by
    intro x above
    change writeCells m.memory address.toNat (leByte (m.regs source)) 8 x =
      writeCells st.memory address.toNat (leByte (st.regs source)) 8 x
    rw [write_cells_apply, write_cells_apply, data.regs, data.memory x above]

theorem load_same (address : U64) (above : bytes ≤ address.toNat) :
    leWord 64 (fun i => m.memory (address.toNat + i)) 8 = leWord 64 (fun i => st.memory (address.toNat + i)) 8 :=
  le_word_congr _ _ _ fun i _ => data.memory _ (Nat.le_trans above (Nat.le_add_right _ i))

end Data

-- A statement is done by the instruction that denotes it: control goes on behind
-- it or at its label, or both machines stop.
section Statements

variable (items : List Item) (bytes : Nat) (input : U64) (m : Machine) (st : SourceState)

inductive Done : Outcome → SourceProgress → Prop where
  | advanced (m' : Machine) (st' : SourceState) (pc : m'.pc = m.pc + BitVec.ofNat 64 instrSize) (rest : st'.rest = st.rest)
      (data : SameData bytes m' st') : Done (.running m') (.running st')
  | jumped (label : Label) (m' : Machine) (rest : List Item) (found : Library.Addresses.after Item.kind label.name items = some rest)
      (pc : m'.pc = targetOf items label.name * BitVec.ofNat 64 instrSize) (data : SameData bytes m' st) :
      Done (.running m') (.running { st with rest := rest })
  | stopped (stop : Stop) (ended : SourceStop) (ends : Ends bytes stop ended) : Done (.stopped stop) (.stopped ended)

variable (data : SameData bytes m st)

include data

theorem operate_done (op : Opcode) (first : Fin 4) (second : Isa.Source) (value : U64) (read : m.value second = value) :
    Done items bytes m st (execute input m (twoOperand op first second)) (.running (st.operate op first value)) := by
  obtain ⟨m', ran, pc, same⟩ := operate_same bytes m st data op first second input value read
  rw [ran]
  refine .advanced m' _ pc ?_ same
  cases op <;> rfl

theorem load_done (target : Fin 4) (address : Address)
    (above : address.value < dataLimit → bytes ≤ address.value.toNat) :
    Done items bytes m st
      (Isa.perform input m (decode ⟨address.value, BitVec.ofNat 8 target.val, Opcode.mov.code, Mode.directLoad.code⟩))
      (perform items input st (.load target address)) := by
  rw [decode_load_instr, perform]
  by_cases plain : address.value < dataLimit
  · rw [if_pos plain, if_pos plain, ← load_same bytes m st data address.value (above plain)]
    exact .advanced _ _ rfl rfl (set_same bytes m st data target _)
  · rw [if_neg plain, if_neg plain]
    by_cases device : address.value = inputAddr
    · rw [if_pos device, if_pos device]
      exact .advanced _ _ rfl rfl (set_same bytes m st data target input)
    · rw [if_neg device, if_neg device]
      exact .stopped _ _ (.rejected m st data)

theorem store_done (address : Address) (source : Fin 4) :
    Done items bytes m st
      (Isa.perform input m (decode ⟨address.value, BitVec.ofNat 8 source.val, Opcode.mov.code, Mode.directStore.code⟩))
      (perform items input st (.store address source)) := by
  have held : m.regs source = st.regs source := congrFun data.regs source
  rw [decode_store_instr, perform]
  by_cases halt : address.value = haltAddr
  · rw [if_pos halt, if_pos halt]
    exact .stopped _ _ (.halted m st data)
  · rw [if_neg halt, if_neg halt]
    by_cases plain : address.value < dataLimit
    · rw [if_pos plain, if_pos plain]
      exact .advanced _ _ rfl rfl (store_same bytes m st data source address.value)
    · rw [if_neg plain, if_neg plain]
      by_cases device : address.value = outputAddr
      · rw [if_pos device, ← held]
        by_cases bit : m.regs source = 0 ∨ m.regs source = 1
        · rw [if_pos ⟨device, bit⟩, Isa.perform, execute_output_bit input m source bit]
          exact .advanced _ _ rfl rfl ⟨data.regs, data.flags, data.memory⟩
        · rw [if_neg (fun both => bit both.2), Isa.perform, execute_output_other input m source bit]
          exact .stopped _ _ (.rejected m st data)
      · rw [if_neg device, if_neg (fun both => device both.1)]
        exact .stopped _ _ (.rejected m st data)

theorem branch_done (op : { op // Opcode.isBranch op = true }) (label : Label) (instr : Instruction)
    (denotes : (Statement.branch op label).Denotes (targetOf items) instr)
    (defined : ∃ item ∈ items, item.kind = .label label.name) :
    Done items bytes m st (Isa.perform input m (decode instr)) (perform items input st (.branch op label)) := by
  obtain ⟨opcode, _, operand⟩ := denotes
  obtain ⟨rest, found⟩ := Library.Addresses.after_defined Item.kind label.name items defined
  have decides := condition_holds op.val op.property st.compared
  rw [← data.flags] at decides
  rw [decode_branch op.val op.property instr opcode, Isa.perform, execute, perform, decides, operand, found]
  cases branches op.val st.compared with
  | true => exact .jumped label _ rest found rfl ⟨data.regs, data.flags, data.memory⟩
  | false => exact .advanced _ _ rfl rfl ⟨data.regs, data.flags, data.memory⟩

theorem statement_done (statement : Statement) (instr : Instruction) (denotes : statement.Denotes (targetOf items) instr)
    (above : Above items bytes) (closed : Closed items) (member : statement ∈ statementsOf items) :
    Done items bytes m st (Isa.perform input m (decode instr)) (perform items input st statement) := by
  cases statement with
  | registers op first second =>
      rw [denotes, decode_registers op.val op.property]
      exact operate_done items bytes input m st data op.val first (.reg second) _ (congrFun data.regs second)
  | literal op first value =>
      rw [denotes, decode_literal op.val op.property]
      exact operate_done items bytes input m st data op.val first (.imm value.value) _ rfl
  | load target address =>
      rw [denotes]
      exact load_done items bytes input m st data target address (above.loads target address member)
  | store address source =>
      rw [denotes]
      exact store_done items bytes input m st data address source
  | negate register =>
      rw [decode_negate instr register denotes.1 denotes.2.1 denotes.2.2, perform, ← congrFun data.regs register]
      exact .advanced _ _ rfl rfl (set_same bytes m st data register _)
  | branch op label => exact branch_done items bytes input m st data op label instr denotes (closed.labelled op label member)

end Statements

end CpuEmulator.Language
