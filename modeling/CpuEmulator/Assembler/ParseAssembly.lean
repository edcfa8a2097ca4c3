import CpuEmulator.Assembler.ParseLine

set_option autoImplicit false

namespace CpuEmulator.Assembler

def maxLen : Nat := 256

-- What one call of fgets stores, what it leaves in the file and whether it has
-- met the end of the file. Nothing stored is a NULL result.
structure Fetched where
  line : Text
  unread : Text
  eof : Bool
deriving DecidableEq, Repr

def fgets : Nat → Text → Fetched
  | 0, unread => ⟨[], unread, false⟩
  | _ + 1, [] => ⟨[], [], true⟩
  | room + 1, c :: unread =>
      if c == '\n' then ⟨[c], unread, false⟩
      else
        let more := fgets room unread
        { more with line := c :: more.line }

inductive Failure where
  | fault | null | endless
deriving DecidableEq, Repr

-- The lines of the turns of while (!feof(file)); fuel bounds the turns.
def turns : Nat → Text → Except Failure (List Text)
  | 0, _ => .error .endless
  | fuel + 1, unread =>
      let got := fgets (maxLen - 1) unread
      if got.eof then .ok [got.line] else (turns fuel got.unread).map (got.line :: ·)

-- char line[MAX_LEN] = {0} after fgets.
def lineArray (line : Text) : Buffer := Buffer.ofBytes (line ++ List.replicate (maxLen - line.length) nul)

-- fgets(...) != NULL && !is_empty(line)
def hasText (line : Text) : Bool := line != [] && !isEmpty (lineArray line).text

structure FirstPass where
  labels : Labels
  lineNumber : U64
deriving DecidableEq, Repr

def firstPassTurn (state : FirstPass) (line : Text) : FirstPass :=
  if hasText line then
    let stripped := removeComment (lineArray line)
    match stripped.text.findIdx? (· == ':') with
    | some colon =>
        { labels := put state.labels (stripped.text.take colon) state.lineNumber, lineNumber := state.lineNumber - 1 + 1 }
    | none => { state with lineNumber := state.lineNumber + 1 }
  else state

def firstPass (lines : List Text) : FirstPass := lines.foldl firstPassTurn ⟨hashMakeTable, 0⟩

-- What a turn of the second pass finds: whether its two reallocs and its malloc
-- succeed, and the bytes in line_copy, which nobody has initialised.
structure Memory where
  realloc : Bool
  malloc : Bool
  lineCopy : Text
deriving DecidableEq, Repr

structure SecondPass where
  instructions : List Instruction
  instructionText : List Text
  capacity : Nat
deriving DecidableEq, Repr

def grow (memory : Memory) (state : SecondPass) : Except Failure SecondPass :=
  if state.instructions.length + 1 = state.capacity ∨ state.capacity = 0 then
    if memory.realloc then .ok { state with capacity := if state.capacity = 0 then 4 else state.capacity * 2 }
    else .error .null
  else .ok state

def removeNewline (str : Text) : Text := if str.getLast? = some '\n' then str.dropLast else str

-- strcpy(line_copy, line)
def copyLine (memory : Memory) (text : Text) : Buffer := ⟨text, memory.lineCopy.drop (text.length + 1)⟩

def emit (memory : Memory) (labels : Labels) (state : SecondPass) (text : Text) (lineCopy : Buffer) : Except Failure SecondPass :=
  if state.capacity ≤ state.instructions.length then .error .fault
  else if memory.malloc then
    match parseLine lineCopy labels with
    | none => .error .fault
    | some instr =>
        .ok { state with
          instructions := state.instructions ++ [instr]
          instructionText := state.instructionText ++ [removeNewline text] }
  else .error .null

def secondPassTurn (memory : Memory) (labels : Labels) (state : SecondPass) (line : Text) : Except Failure SecondPass :=
  (grow memory state).bind fun state =>
    if hasText line then
      let lineCopy := removeComment (copyLine memory (lineArray line).text)
      if lineCopy.text.findIdx? (· == ':') = none ∧ isEmpty lineCopy.text = false then
        emit memory labels state (lineArray line).text lineCopy
      else .ok state
    else .ok state

def secondPass (memory : Nat → Memory) (labels : Labels) : Nat → List Text → SecondPass → Except Failure SecondPass
  | _, [], state => .ok state
  | turn, line :: lines, state =>
      (secondPassTurn (memory turn) labels state line).bind (secondPass memory labels (turn + 1) lines)

structure Program where
  instructions : List Instruction
  instructionText : List Text
deriving DecidableEq, Repr

def haltText : Text := ['H', 'A', 'L', 'T']

def appendHalt (memory : Memory) (state : SecondPass) : Except Failure Program :=
  if state.capacity ≤ state.instructions.length then .error .fault
  else if memory.malloc then .ok ⟨state.instructions ++ [haltInstr], state.instructionText ++ [haltText]⟩
  else .error .null

-- The size of a file is an off_t.
structure SourceFile where
  bytes : Text
  size : bytes.length < 2 ^ 63

def parseAssembly (memory : Nat → Memory) : Option SourceFile → Except Failure Program
  | none => .error .null
  | some source =>
      (turns (source.bytes.length + 1) source.bytes).bind fun lines =>
        (secondPass memory (firstPass lines).labels 0 lines ⟨[], [], 0⟩).bind (appendHalt (memory lines.length))

end CpuEmulator.Assembler
