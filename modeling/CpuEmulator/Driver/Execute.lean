import CpuEmulator.Uapi

set_option autoImplicit false

namespace CpuEmulator.Driver

def mmioStart : U64 := 0xFFF0
def mmioInput : U64 := 0xFFFD
def mmioOutput : U64 := 0xFFFE

structure MyCpu where
  regs : Fin 4 → U64
  pc : U64
  fr : U16
  pendingMemAddr : U64
  pendingRegIdx : U8
  pendingMmioRead : U8

-- What the driver shares between its open files: the output lines it drives and
-- the three atomic variables that the interrupt threads and cpu_open set.
structure Board where
  leds : Fin 4 → Bool
  outputDev : Bool
  cpuRunning : Int
  cpuPaused : Int
  stepCount : Int

-- After cpu_init: every output low, the atomics at ATOMIC_INIT(0).
def loadedBoard : Board := ⟨fun _ => false, false, 0, 0, 0⟩

-- A u64 * into the register file is the index it points at; NULL is none.
def getRegister (reg : U64) : Option (Fin 4) :=
  match reg.toNat with
  | 0 => some 0
  | 1 => some 1
  | 2 => some 2
  | 3 => some 3
  | _ => none

def MyCpu.setReg (cpu : MyCpu) (reg : Fin 4) (value : U64) : MyCpu :=
  { cpu with regs := Function.update cpu.regs reg value }

def handleCompare (cpu : MyCpu) (result : U64) : MyCpu :=
  let zero := if result = 0 then cpu.fr ||| flagZf else cpu.fr &&& ~~~flagZf
  { cpu with fr := if result.toInt < 0 then (zero ||| flagSf) ||| flagCf
                   else (zero &&& ~~~flagSf) &&& ~~~flagCf }

def handleCompareImmediate (cpu : MyCpu) (reg1 : Fin 4) (operand : U64) : MyCpu :=
  handleCompare cpu (cpu.regs reg1 - operand)

def handleCompareRegister (cpu : MyCpu) (reg1 reg2 : Fin 4) : MyCpu :=
  handleCompare cpu (cpu.regs reg1 - cpu.regs reg2)

def setDiodes (current prev : MyCpu) (board : Board) : Board :=
  { board with leds := fun i => current.regs i != prev.regs i }

def isMmio (addr : U64) : Bool := mmioStart ≤ addr
def isMmioInput (addr : U64) : Bool := addr = mmioInput
def isMmioOutput (addr : U64) : Bool := addr = mmioOutput

structure Executed where
  cpu : MyCpu
  board : Board
  ret : Int

-- set_diodes(*cpu, prev_state) followed by a return out of the switch.
def leave (prev cpu : MyCpu) (board : Board) (ret : Int) : Executed :=
  ⟨cpu, setDiodes cpu prev board, ret⟩

-- The label end: after the switch.
def finish (prev cpu : MyCpu) (board : Board) : Executed :=
  ⟨{ cpu with pc := cpu.pc + BitVec.ofNat 64 instrSize }, setDiodes cpu prev board, execSuccess⟩

-- The IMMEDIATE and REGISTER branches of ADD, SUB, AND, OR, MOV and CMP differ
-- only in what they do with the registers once both lookups have succeeded.
def twoOperands (immediate : Fin 4 → MyCpu) (register : Fin 4 → Fin 4 → MyCpu) (cpu : MyCpu)
    (board : Board) (instr : Instruction) : Executed :=
  match modeOf instr.mode with
  | some .immediate =>
      match getRegister (instr.operand1.setWidth 64) with
      | none => leave cpu cpu board (-einval)
      | some reg => finish cpu (immediate reg) board
  | some .register =>
      match getRegister (instr.operand1.setWidth 64), getRegister instr.operand2 with
      | some reg1, some reg2 => finish cpu (register reg1 reg2) board
      | _, _ => leave cpu cpu board (-einval)
  | _ => leave cpu cpu board (-einval)

-- *reg = op(*reg, operand)
def assign (op : U64 → U64 → U64) (cpu : MyCpu) (board : Board) (instr : Instruction) : Executed :=
  twoOperands (fun reg => cpu.setReg reg (op (cpu.regs reg) instr.operand2))
    (fun reg1 reg2 => cpu.setReg reg1 (op (cpu.regs reg1) (cpu.regs reg2))) cpu board instr

def execCmp (cpu : MyCpu) (board : Board) (instr : Instruction) : Executed :=
  twoOperands (fun reg => handleCompareImmediate cpu reg instr.operand2) (handleCompareRegister cpu)
    cpu board instr

def execNot (cpu : MyCpu) (board : Board) (instr : Instruction) : Executed :=
  if modeOf instr.mode ≠ some .register then leave cpu cpu board (-einval)
  else
    match getRegister instr.operand2 with
    | none => leave cpu cpu board (-einval)
    | some reg => finish cpu (cpu.setReg reg (~~~cpu.regs reg)) board

-- input is what gpiod_get_value(input_dev) returns; the u8 field keeps its low
-- byte, so the sign test below never succeeds.
def directLoad (input : Int) (cpu : MyCpu) (board : Board) (instr : Instruction) : Executed :=
  if isMmio instr.operand2 then
    if isMmioInput instr.operand2 then
      match getRegister (instr.operand1.setWidth 64) with
      | none => leave cpu cpu board (-einval)
      | some reg =>
          let pending := { cpu with pendingMmioRead := BitVec.ofInt 8 input }
          let loaded := pending.setReg reg (pending.pendingMmioRead.setWidth 64)
          if (loaded.pendingMmioRead.toNat : Int) < 0 then
            leave cpu loaded board loaded.pendingMmioRead.toNat
          else
            ⟨{ loaded with pc := loaded.pc + BitVec.ofNat 64 instrSize },
              setDiodes loaded cpu board, execPendingMmioRead⟩
    else leave cpu cpu board (-einval)
  else
    leave cpu
      { cpu with
        pendingMemAddr := instr.operand2
        pendingRegIdx := instr.operand1
        pc := cpu.pc + BitVec.ofNat 64 instrSize }
      board execPendingMemRead

def directStore (cpu : MyCpu) (board : Board) (instr : Instruction) : Executed :=
  if isMmio instr.operand2 then
    if instr.operand2 = mmioHalt then leave cpu cpu board execHalt
    else if isMmioOutput instr.operand2 then
      match getRegister (instr.operand1.setWidth 64) with
      | none => leave cpu cpu board (-einval)
      | some reg =>
          if cpu.regs reg = 0 then finish cpu cpu { board with outputDev := false }
          else if cpu.regs reg = 1 then finish cpu cpu { board with outputDev := true }
          else leave cpu cpu board (-einval)
    else leave cpu cpu board (-einval)
  else
    leave cpu
      { cpu with
        pendingMemAddr := instr.operand2
        pendingRegIdx := instr.operand1
        pc := cpu.pc + BitVec.ofNat 64 instrSize }
      board execPendingMemWrite

def execMov (input : Int) (cpu : MyCpu) (board : Board) (instr : Instruction) : Executed :=
  match modeOf instr.mode with
  | some .directLoad => directLoad input cpu board instr
  | some .directStore => directStore cpu board instr
  | _ => assign (fun _ operand => operand) cpu board instr

-- JMP, JE, JG and JL: a branch that is not taken falls through to end:.
def branch (taken : Bool) (cpu : MyCpu) (board : Board) (instr : Instruction) : Executed :=
  if taken then
    leave cpu { cpu with pc := instr.operand2 * BitVec.ofNat 64 instrSize } board execSuccess
  else finish cpu cpu board

def executeInstruction (input : Int) (cpu : MyCpu) (board : Board) (instr : Instruction) : Executed :=
  match opcodeOf instr.opcode with
  | some .add => assign (· + ·) cpu board instr
  | some .sub => assign (· - ·) cpu board instr
  | some .and => assign (· &&& ·) cpu board instr
  | some .or => assign (· ||| ·) cpu board instr
  | some .not => execNot cpu board instr
  | some .mov => execMov input cpu board instr
  | some .cmp => execCmp cpu board instr
  | some .jmp => branch true cpu board instr
  | some .je => branch (cpu.fr &&& flagZf != 0) cpu board instr
  | some .jg => branch (cpu.fr &&& flagSf == 0 && cpu.fr &&& flagZf == 0) cpu board instr
  | some .jl => branch (cpu.fr &&& flagSf != 0) cpu board instr
  | none => leave cpu cpu board (-einval)

end CpuEmulator.Driver
