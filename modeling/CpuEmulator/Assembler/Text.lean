import CpuEmulator.Uapi

set_option autoImplicit false

namespace CpuEmulator.Assembler

-- One Char for each byte.
abbrev Text := List Char

def nul : Char := Char.ofNat 0

def cString (bytes : Text) : Text := bytes.takeWhile (· != nul)

-- A char array: the string up to its terminating NUL, and the bytes behind it.
structure Buffer where
  text : Text
  rest : Text
deriving DecidableEq, Repr

def Buffer.ofBytes (bytes : Text) : Buffer := ⟨cString bytes, bytes.drop ((cString bytes).length + 1)⟩

-- str[i]; none is an index outside the array.
def Buffer.at (str : Buffer) (i : Nat) : Option Char :=
  if i < str.text.length then str.text[i]?
  else if i = str.text.length then some nul
  else str.rest[i - (str.text.length + 1)]?

-- memmove(str + i, str + i + 1, strlen(str) - i); none is a length that wraps
-- around. The old NUL stays where it was.
def Buffer.closeGap (str : Buffer) (i : Nat) : Option Buffer :=
  if i < str.text.length then some ⟨str.text.eraseIdx i, nul :: str.rest⟩
  else if i = str.text.length then some str
  else none

def isEmpty : Text → Bool
  | [] => true
  | c :: rest => if c != ' ' && c != '\n' then c == ';' else isEmpty rest

def removeComment (str : Buffer) : Buffer :=
  match str.text.findIdx? (· == ';') with
  | none => str
  | some i => ⟨str.text.take i, str.text.drop (i + 1) ++ nul :: str.rest⟩

-- The copies come from malloc, which always has room for a part of a line.
def substring (str : Text) (start stop : Nat) : Option Text :=
  if stop ≤ start ∨ str.length < stop then none else some ((str.drop start).take (stop - start))

-- while (str[i] == ' ') memmove(...); every turn of the loop shortens the string.
def skipSpaces (i : Nat) : Nat → Buffer → Option Buffer
  | 0, _ => none
  | fuel + 1, str =>
      match str.at i with
      | none => none
      | some c => if c == ' ' then (str.closeGap i).bind (skipSpaces i fuel) else some str

def scanFrom (str : Text) (start : Nat) (test : Char → Bool) : Option Nat :=
  ((str.drop start).findIdx? test).map (· + start)

structure Parts where
  part1 : Option Text
  part2 : Option Text
  part3 : Option Text
deriving DecidableEq, Repr

-- The function works in three phases, one for each part; the end of a part is
-- where the search for its delimiter stopped, or stays that of the part before.
def lastPart (str : Buffer) (delimiter : Char) (end2 : Nat) : Option Text :=
  let found := (scanFrom str.text (end2 + 1) (fun c => c == delimiter || c == '\n')).getD end2
  let end3 := if found < end2 + 1 then str.text.length else found
  substring str.text (end2 + 1) end3

def laterParts (str : Buffer) (delimiter : Char) (end1 : Nat) : Option (Option Text × Option Text) :=
  let end2 := (scanFrom str.text (end1 + 1) (· == delimiter)).getD end1
  (skipSpaces (end2 + 1) (str.text.length + 1) str).map fun closed =>
    (substring str.text (end1 + 1) end2, lastPart closed delimiter end2)

def splitByChar (str : Buffer) (delimiter : Char) : Option Parts :=
  (skipSpaces 0 (str.text.length + 1) str).bind fun trimmed =>
    let end1 := (scanFrom trimmed.text 0 (· == delimiter)).getD 0
    (skipSpaces (end1 + 1) (trimmed.text.length + 1) trimmed).bind fun closed =>
      (laterParts closed delimiter end1).map fun later =>
        ⟨substring trimmed.text 0 end1, later.1, later.2⟩

def isSpace (c : Char) : Bool := c == ' ' || (9 ≤ c.toNat && c.toNat ≤ 13)

def digitValue (c : Char) : Nat :=
  if '0' ≤ c ∧ c ≤ '9' then c.toNat - 48
  else if 'a' ≤ c ∧ c ≤ 'z' then c.toNat - 87
  else if 'A' ≤ c ∧ c ≤ 'Z' then c.toNat - 55
  else 36

def isDigit (base : Nat) (c : Char) : Bool := digitValue c < base

def numeralValue (base : Nat) (digits : Text) : Nat := digits.foldl (fun value c => value * base + digitValue c) 0

def uint64Max : U64 := BitVec.allOnes 64

structure Converted where
  value : U64
  rest : Text
  range : Bool
deriving DecidableEq, Repr

def dropSign : Text → Bool × Text
  | '+' :: rest => (false, rest)
  | '-' :: rest => (true, rest)
  | rest => (false, rest)

def dropHexPrefix : Text → Text
  | '0' :: 'x' :: c :: rest => if isDigit 16 c then c :: rest else '0' :: 'x' :: c :: rest
  | '0' :: 'X' :: c :: rest => if isDigit 16 c then c :: rest else '0' :: 'X' :: c :: rest
  | text => text

def strtoull (base : Nat) (str : Text) : Converted :=
  let (negative, unsigned) := dropSign (str.dropWhile isSpace)
  let body := if base = 16 then dropHexPrefix unsigned else unsigned
  let digits := body.takeWhile (isDigit base)
  let rest := body.dropWhile (isDigit base)
  let value := numeralValue base digits
  if digits = [] then ⟨0, str, false⟩
  else if 2 ^ 64 ≤ value then ⟨uint64Max, rest, true⟩
  else if negative then ⟨-BitVec.ofNat 64 value, rest, false⟩
  else ⟨BitVec.ofNat 64 value, rest, false⟩

def parseInt (str : Text) : Option U64 :=
  let converted := strtoull 10 str
  if converted.rest.length = str.length ∨ converted.range ∨ converted.rest ≠ [] then none else some converted.value

end CpuEmulator.Assembler
