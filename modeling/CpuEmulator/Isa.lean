import CpuEmulator.Uapi
import CpuEmulator.Library.ByteStore
import CpuEmulator.Library.Progress

set_option autoImplicit false

namespace CpuEmulator.Isa

open Library

-- The instruction set as a programmer sees it: four registers, flags and one
-- byte memory, every instruction a single step. Nothing here mentions pending
-- requests or messages between two programs.
inductive Source where
  | imm (value : U64)
  | reg (index : Fin 4)

inductive Condition where
  | always | equal | greater | less

inductive Instr where
  | assign (op : U64 → U64 → U64) (dst : Fin 4) (src : Source)
  | not (dst : Fin 4)
  | compare (lhs : Fin 4) (rhs : Source)
  | jump (cond : Condition) (target : U64)
  | load (dst : Fin 4) (addr : U64)
  | store (src : Fin 4) (addr : U64)
  | input (dst : Fin 4)
  | output (src : Fin 4)
  | halt

structure Machine where
  regs : Fin 4 → U64
  pc : U64
  fr : U16
  memory : Nat → U8

inductive Stop where
  | halted (m : Machine)
  | rejected (m : Machine)

abbrev Outcome := Progress Machine Stop

def register (code : Nat) : Option (Fin 4) := if h : code < 4 then some ⟨code, h⟩ else none

def dataLimit : U64 := 0xFFF0
def inputAddr : U64 := 0xFFFD
def outputAddr : U64 := 0xFFFE
def haltAddr : U64 := 0xFFFF

def source (raw : Instruction) : Option Source :=
  match modeOf raw.mode with
  | some .immediate => some (.imm raw.operand2)
  | some .register => (register raw.operand2.toNat).map .reg
  | _ => none

def binary (make : Fin 4 → Source → Instr) (raw : Instruction) : Option Instr :=
  match register raw.operand1.toNat, source raw with
  | some dst, some src => some (make dst src)
  | _, _ => none

def decodeLoad (raw : Instruction) : Option Instr :=
  match register raw.operand1.toNat with
  | none => none
  | some dst =>
      if raw.operand2 < dataLimit then some (.load dst raw.operand2)
      else if raw.operand2 = inputAddr then some (.input dst)
      else none

def decodeStore (raw : Instruction) : Option Instr :=
  if raw.operand2 = haltAddr then some .halt
  else
    match register raw.operand1.toNat with
    | none => none
    | some src =>
        if raw.operand2 < dataLimit then some (.store src raw.operand2)
        else if raw.operand2 = outputAddr then some (.output src)
        else none

def decode (raw : Instruction) : Option Instr :=
  match opcodeOf raw.opcode with
  | some .add => binary (.assign (· + ·)) raw
  | some .sub => binary (.assign (· - ·)) raw
  | some .and => binary (.assign (· &&& ·)) raw
  | some .or => binary (.assign (· ||| ·)) raw
  | some .not =>
      if modeOf raw.mode = some .register then (register raw.operand2.toNat).map .not else none
  | some .mov =>
      match modeOf raw.mode with
      | some .directLoad => decodeLoad raw
      | some .directStore => decodeStore raw
      | _ => binary (.assign (fun _ value => value)) raw
  | some .cmp => binary .compare raw
  | some .jmp => some (.jump .always raw.operand2)
  | some .je => some (.jump .equal raw.operand2)
  | some .jg => some (.jump .greater raw.operand2)
  | some .jl => some (.jump .less raw.operand2)
  | none => none

def Machine.value (m : Machine) : Source → U64
  | .imm value => value
  | .reg index => m.regs index

def Machine.set (m : Machine) (dst : Fin 4) (value : U64) : Machine :=
  { m with regs := Function.update m.regs dst value }

def Machine.advance (m : Machine) : Machine := { m with pc := m.pc + BitVec.ofNat 64 instrSize }

def compareFlags (difference : U64) : U16 :=
  if difference = 0 then flagZf else if difference.toInt < 0 then flagSf ||| flagCf else 0

def Condition.holds (fr : U16) : Condition → Bool
  | .always => true
  | .equal => fr &&& flagZf != 0
  | .greater => fr &&& flagSf == 0 && fr &&& flagZf == 0
  | .less => fr &&& flagSf != 0

def execute (input : U64) (m : Machine) : Instr → Outcome
  | .assign op dst src => .running (m.set dst (op (m.regs dst) (m.value src))).advance
  | .not dst => .running (m.set dst (~~~m.regs dst)).advance
  | .compare lhs rhs => .running { m with fr := compareFlags (m.regs lhs - m.value rhs) }.advance
  | .jump cond target =>
      if cond.holds m.fr then .running { m with pc := target * BitVec.ofNat 64 instrSize }
      else .running m.advance
  | .load dst addr =>
      .running (m.set dst (leWord 64 (fun i => m.memory (addr.toNat + i)) 8)).advance
  | .store src addr =>
      .running { m with memory := writeCells m.memory addr.toNat (leByte (m.regs src)) 8 }.advance
  | .input dst => .running (m.set dst input).advance
  | .output src => if m.regs src = 0 ∨ m.regs src = 1 then .running m.advance else .stopped (.rejected m)
  | .halt => .stopped (.halted m)

theorem execute_output_bit (input : U64) (m : Machine) (src : Fin 4) (bit : m.regs src = 0 ∨ m.regs src = 1) :
    execute input m (.output src) = .running m.advance := if_pos bit

theorem execute_output_other (input : U64) (m : Machine) (src : Fin 4)
    (other : ¬ (m.regs src = 0 ∨ m.regs src = 1)) : execute input m (.output src) = .stopped (.rejected m) := if_neg other

def perform (input : U64) (m : Machine) : Option Instr → Outcome
  | none => .stopped (.rejected m)
  | some instr => execute input m instr

def step (code : List Instruction) (input : U64) (m : Machine) : Outcome :=
  match code[m.pc.toNat / instrSize]? with
  | none => .stopped (.rejected m)
  | some raw => perform input m (decode raw)

def run (code : List Instruction) (inputs : Nat → U64) (start : Machine) : Nat → Outcome :=
  Progress.iterate (fun k => step code (inputs k)) (.running start)

def start (memory : Nat → U8) : Machine := ⟨fun _ => 0, 0, 0, memory⟩

end CpuEmulator.Isa
