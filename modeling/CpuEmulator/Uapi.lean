import Mathlib.Algebra.Order.Group.Nat
import Mathlib.Logic.Function.Basic

set_option autoImplicit false

namespace CpuEmulator

instance levelNumeral : @NeZero Nat Zero.ofOfNat0 3 := ⟨Nat.succ_ne_zero 2⟩
instance registerNumeral : @NeZero Nat Zero.ofOfNat0 4 := ⟨Nat.succ_ne_zero 3⟩

abbrev U8 := BitVec 8
abbrev U16 := BitVec 16
abbrev U64 := BitVec 64

inductive Opcode where
  | add | sub | and | or | not | mov | cmp | jmp | je | jg | jl
deriving DecidableEq, Repr

def Opcode.isBranch : Opcode → Bool
  | .jmp | .je | .jg | .jl => true
  | _ => false

def Opcode.code : Opcode → U8
  | .add => 0x00
  | .sub => 0x01
  | .and => 0x02
  | .or => 0x03
  | .not => 0x04
  | .mov => 0x10
  | .cmp => 0x20
  | .jmp => 0x21
  | .je => 0x22
  | .jg => 0x23
  | .jl => 0x24

def opcodes : List Opcode := [.add, .sub, .and, .or, .not, .mov, .cmp, .jmp, .je, .jg, .jl]

-- The case labels of the driver's switch; every other byte takes its default branch.
def opcodeOf (byte : U8) : Option Opcode := opcodes.find? (fun op => op.code == byte)

inductive Mode where
  | immediate | register | directLoad | directStore | label
deriving DecidableEq, Repr

def Mode.code : Mode → U8
  | .immediate => 0x00
  | .register => 0x01
  | .directLoad => 0x02
  | .directStore => 0x03
  | .label => 0x04

def modes : List Mode := [.immediate, .register, .directLoad, .directStore, .label]

def modeOf (byte : U8) : Option Mode := modes.find? (fun mode => mode.code == byte)

theorem opcode_of_code (op : Opcode) : opcodeOf op.code = some op := by
  cases op <;> rfl

def flagCf : U16 := 0x01
def flagZf : U16 := 0x40
def flagSf : U16 := 0x80

-- One byte each for opcode, mode and operand1, eight bytes for operand2.
def instrSize : Nat := 11

-- Execution results are signed 32-bit values; errors are negated errno numbers.
def execSuccess : Int := 0
def execHalt : Int := -1
def execPendingMemRead : Int := 1
def execPendingMemWrite : Int := 2
def execPendingMmioRead : Int := 3

def enomem : Int := 12
def efault : Int := 14
def einval : Int := 22
def erestartsys : Int := 512

def mmioHalt : U64 := 0xFFFF

-- The padding bytes of the shared records are read by nobody and left out;
-- the sizes below count them.
structure Instruction where
  operand2 : U64
  operand1 : U8
  opcode : U8
  mode : U8
deriving DecidableEq, Repr

-- The instruction that parse_assembly appends to every program.
def haltInstr : Instruction where
  operand2 := mmioHalt
  operand1 := 0
  opcode := Opcode.mov.code
  mode := Mode.directStore.code

structure WriteValue where
  instruction : Instruction
  val : U64
  isInstruction : U8
deriving DecidableEq, Repr

structure ReadValue where
  pc : U64
  memAddr : U64
  val : U64
  execReturn : Int
deriving DecidableEq, Repr

structure MemAccess where
  addr : U64
  type : U8
deriving DecidableEq, Repr

def sizeofWriteValue : Nat := 32
def sizeofReadValue : Nat := 32
def sizeofMemAccess : Nat := 16

end CpuEmulator
