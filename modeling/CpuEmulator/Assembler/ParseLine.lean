import CpuEmulator.Assembler.Uthash

set_option autoImplicit false

namespace CpuEmulator.Assembler

abbrev Labels := HashTable

def keyRoom : Nat := 63

-- The search uses the full key, the new entry keeps its first 63 characters. Its
-- malloc is not checked and taken to succeed.
def put (labels : Labels) (key : Text) (value : U64) : Labels :=
  match hashFindStr labels key with
  | some i =>
      { labels with
        buckets := labels.buckets.modify (hashFindBkt labels key) fun bucket =>
          { bucket with chain := bucket.chain.modify i fun entry => { entry with value := value } } }
  | none => hashAddStr labels ⟨key.take keyRoom, value⟩

def get (labels : Labels) (key : Text) : Option U64 :=
  (hashFindStr labels key).bind fun i =>
    (bucketAt labels.buckets (hashFindBkt labels key)).chain[i]?.map LabelAddress.value

def mnemonic : Opcode → Text
  | .add => ['A', 'D', 'D']
  | .sub => ['S', 'U', 'B']
  | .and => ['A', 'N', 'D']
  | .or => ['O', 'R']
  | .not => ['N', 'O', 'T']
  | .mov => ['M', 'O', 'V']
  | .cmp => ['C', 'M', 'P']
  | .jmp => ['J', 'M', 'P']
  | .je => ['J', 'E']
  | .jg => ['J', 'G']
  | .jl => ['J', 'L']

def operationOf (operation : Text) : Option Opcode := opcodes.find? (fun op => mnemonic op == operation)

def registerName (reg : Fin 4) : Text :=
  match reg with
  | 0 => ['R', '0']
  | 1 => ['R', '1']
  | 2 => ['R', '2']
  | 3 => ['R', '3']

-- REG_0 to REG_3 are the numbers 0 to 3.
def registerOf (operand : Text) : Option (Fin 4) := [0, 1, 2, 3].find? (fun reg => registerName reg == operand)

-- operand[0] == '[' and operand[strlen(operand) - 1] == ']'; parts are never empty.
def isBracketed (operand : Text) : Bool := operand.head? == some '[' && operand.getLast? == some ']'

def unbracketed (operand : Text) : Text := operand.dropLast.drop 1

def uint8Max : U8 := BitVec.allOnes 8

-- Branches jump to end as soon as the label has been looked up. get leaves its
-- target alone when it fails, and its result is not looked at. A missing second
-- field too would be a NULL key.
def parseBranch (op : Opcode) (parts : Parts) (labels : Labels) : Option Instruction :=
  (parts.part2.or parts.part3).map fun label =>
    ⟨(get labels label).getD uint64Max, uint8Max, op.code, Mode.label.code⟩

def parseOperand2 (instr : Instruction) (operand2 : Text) : Instruction :=
  match registerOf operand2 with
  | some reg => { instr with operand2 := BitVec.ofNat 64 reg.val }
  | none =>
      if isBracketed operand2 then
        { instr with mode := Mode.directLoad.code, operand2 := (strtoull 16 (unbracketed operand2)).value }
      else
        match parseInt operand2 with
        | some value => { instr with mode := Mode.immediate.code, operand2 := value }
        | none => instr

def parseOperand1 (instr : Instruction) (operand1 : Text) : Instruction :=
  match registerOf operand1 with
  | some reg => { instr with operand1 := BitVec.ofNat 8 reg.val }
  | none =>
      if isBracketed operand1 then
        { instr with
          mode := Mode.directStore.code
          operand1 := instr.operand2.setWidth 8
          operand2 := (strtoull 16 (unbracketed operand1)).value }
      else instr

def defaultMode (instr : Instruction) : Instruction :=
  if instr.mode = uint8Max then { instr with mode := Mode.register.code } else instr

-- Without a third field the second stands for both operands; without a second
-- field the mode is left as it is. With neither, strlen gets a NULL pointer.
def parseOperands (instr : Instruction) (parts : Parts) : Option Instruction :=
  (parts.part3.or parts.part2).map fun operand2 =>
    let instr := parseOperand2 instr operand2
    match parts.part2 with
    | none => instr
    | some operand1 => defaultMode (parseOperand1 instr operand1)

def replaceComma (line : Buffer) : Buffer :=
  match line.text.findIdx? (· == ',') with
  | none => line
  | some i => { line with text := line.text.set i ' ' }

-- none is an access outside the line or through a NULL pointer.
def parseLine (line : Buffer) (labels : Labels) : Option Instruction :=
  (splitByChar (replaceComma line) ' ').bind fun parts =>
    parts.part1.bind fun operation =>
      match operationOf operation with
      | some op =>
          if op.isBranch then parseBranch op parts labels
          else
            parseOperands ⟨uint64Max, uint8Max, op.code, if op = .not then Mode.register.code else uint8Max⟩ parts
      | none => parseOperands ⟨uint64Max, uint8Max, uint8Max, uint8Max⟩ parts

end CpuEmulator.Assembler
