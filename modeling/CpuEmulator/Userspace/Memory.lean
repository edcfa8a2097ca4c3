import CpuEmulator.Uapi
import CpuEmulator.Library.ByteStore

set_option autoImplicit false

namespace CpuEmulator.Userspace

open Library

-- The byte array memory[MEM_SIZE]. The accessors below return none where the C
-- code would run past its end.
abbrev Memory := Nat → U8

def memSize : Nat := 0x10000

def readFromMemory (memory : Memory) (address : U64) : Option U64 :=
  if address.toNat + 7 < memSize then some (leWord 64 (fun i => memory (address.toNat + i)) 8) else none

def writeToMemory (memory : Memory) (address value : U64) : Option Memory :=
  if address.toNat + 7 < memSize then some (writeCells memory address.toNat (leByte value) 8) else none

-- memcpy of operand2 on a little-endian host is the same byte order.
def fetchNext (memory : Memory) (pc : U64) : Option Instruction :=
  if pc.toNat + 10 < memSize then
    some {
      opcode := memory pc.toNat
      mode := memory (pc.toNat + 1)
      operand1 := memory (pc.toNat + 2)
      operand2 := leWord 64 (fun i => memory (pc.toNat + 3 + i)) 8 }
  else none

def storeInstruction (memory : Memory) (base : Nat) (instr : Instruction) : Memory :=
  let opcode := Function.update memory (base + 0) instr.opcode
  let mode := Function.update opcode (base + 1) instr.mode
  let operand1 := Function.update mode (base + 2) instr.operand1
  writeCells operand1 (base + 3) (leByte instr.operand2) 8

def storeFrom (memory : Memory) : Nat → List Instruction → Memory
  | _, [] => memory
  | i, instr :: rest => storeFrom (storeInstruction memory (i * instrSize) instr) (i + 1) rest

def storeMachineCode (memory : Memory) (memorySize : Nat) (instructions : List Instruction) : Memory :=
  if memorySize < instructions.length * instrSize + instrSize then memory
  else storeFrom memory 0 instructions

def encodedByte (instr : Instruction) : Nat → U8
  | 0 => instr.opcode
  | 1 => instr.mode
  | 2 => instr.operand1
  | i + 3 => leByte instr.operand2 i

theorem store_instruction_apply (memory : Memory) (base : Nat) (instr : Instruction) (x : Nat) :
    storeInstruction memory base instr x =
      if base ≤ x ∧ x < base + instrSize then encodedByte instr (x - base) else memory x := by
  unfold storeInstruction instrSize
  rw [write_cells_apply]
  by_cases tail : base + 3 ≤ x ∧ x < base + 3 + 8
  · obtain ⟨i, rfl⟩ : ∃ i, x = base + (i + 3) := ⟨x - base - 3, by omega⟩
    rw [if_pos tail, if_pos (by omega), Nat.add_sub_cancel_left, show base + (i + 3) - (base + 3) = i by omega]
    rfl
  · rw [if_neg tail]
    by_cases inside : base ≤ x ∧ x < base + 11
    · rw [if_pos inside]
      have head : x = base + 0 ∨ x = base + 1 ∨ x = base + 2 := by omega
      rcases head with rfl | rfl | rfl <;> simp [Function.update, encodedByte]
    · rw [if_neg inside]
      simp [Function.update, show x ≠ base by omega, show x ≠ base + 1 by omega, show x ≠ base + 2 by omega]

theorem store_from_apply (instructions : List Instruction) (memory : Memory) (first x : Nat) :
    storeFrom memory first instructions x =
      match instructions[x / instrSize - first]? with
      | some instr => if first * instrSize ≤ x then encodedByte instr (x % instrSize) else memory x
      | none => memory x := by
  induction instructions generalizing memory first with
  | nil => rfl
  | cons instr rest ih =>
      rw [storeFrom, ih, store_instruction_apply]
      simp only [instrSize]
      by_cases before : x < first * 11
      · have later : x / 11 - (first + 1) = 0 := by omega
        have here : x / 11 - first = 0 := by omega
        rw [later, here]
        cases rest[0]? <;> simp [show ¬ first * 11 ≤ x by omega, show ¬ (first + 1) * 11 ≤ x by omega]
      · by_cases here : x < (first + 1) * 11
        · have index : x / 11 - first = 0 := by omega
          have later : x / 11 - (first + 1) = 0 := by omega
          have offset : x - first * 11 = x % 11 := by omega
          rw [index, later]
          cases rest[0]? <;>
            simp [show ¬ (first + 1) * 11 ≤ x by omega, show first * 11 ≤ x by omega,
              show x < first * 11 + 11 by omega, offset]
        · have index : x / 11 - first = x / 11 - (first + 1) + 1 := by omega
          rw [index, List.getElem?_cons_succ]
          cases rest[x / 11 - (first + 1)]? <;>
            simp [show (first + 1) * 11 ≤ x by omega, show first * 11 ≤ x by omega,
              show ¬ x < first * 11 + 11 by omega]

theorem stored_byte (instructions : List Instruction) (memory : Memory) (memorySize i j : Nat)
    (instr : Instruction) (fits : instructions.length * instrSize + instrSize ≤ memorySize)
    (access : instructions[i]? = some instr) (within : j < instrSize) :
    storeMachineCode memory memorySize instructions (i * instrSize + j) = encodedByte instr j := by
  have quotient : (i * instrSize + j) / instrSize - 0 = i := by
    simp only [instrSize] at within ⊢
    omega
  have remainder : (i * instrSize + j) % instrSize = j := by
    simp only [instrSize] at within ⊢
    omega
  rw [storeMachineCode, if_neg (by omega), store_from_apply, quotient, access, remainder]
  simp

-- fetch_next over an array of memorySize bytes instead of memory[MEM_SIZE].
def fetchIn (memorySize : Nat) (memory : Memory) (pc : U64) : Option Instruction :=
  if pc.toNat + 10 < memorySize then
    some {
      opcode := memory pc.toNat
      mode := memory (pc.toNat + 1)
      operand1 := memory (pc.toNat + 2)
      operand2 := leWord 64 (fun i => memory (pc.toNat + 3 + i)) 8 }
  else none

theorem fetch_next_in (memory : Memory) (pc : U64) : fetchNext memory pc = fetchIn memSize memory pc := rfl

theorem fetch_in_encoded (memorySize : Nat) (memory : Memory) (pc : U64) (instr : Instruction)
    (bound : pc.toNat + 10 < memorySize)
    (encoded : ∀ j, j < instrSize → memory (pc.toNat + j) = encodedByte instr j) :
    fetchIn memorySize memory pc = some instr := by
  have opcode := encoded 0 (by decide)
  have mode := encoded 1 (by decide)
  have operand1 := encoded 2 (by decide)
  have operand2 : leWord 64 (fun i => memory (pc.toNat + 3 + i)) 8 = instr.operand2 := by
    rw [← le_word_of_bytes instr.operand2 8 (by decide)]
    apply le_word_congr
    intro i small
    have byte := encoded (i + 3) (by simp only [instrSize]; omega)
    rwa [show pc.toNat + (i + 3) = pc.toNat + 3 + i by omega] at byte
  simp only [Nat.add_zero] at opcode
  rw [fetchIn, if_pos bound, opcode, mode, operand1, operand2]
  rfl

theorem fetch_encoded (memory : Memory) (pc : U64) (instr : Instruction) (bound : pc.toNat + 10 < memSize)
    (encoded : ∀ j, j < instrSize → memory (pc.toNat + j) = encodedByte instr j) :
    fetchNext memory pc = some instr := by
  rw [fetch_next_in]
  exact fetch_in_encoded memSize memory pc instr bound encoded

theorem stored_fetched (memory : Memory) (memorySize i : Nat) (instructions : List Instruction) (instr : Instruction)
    (bounded : memorySize < 2 ^ 31) (fits : instructions.length * instrSize + instrSize ≤ memorySize)
    (access : instructions[i]? = some instr) :
    fetchIn memorySize (storeMachineCode memory memorySize instructions) (BitVec.ofNat 64 (i * instrSize)) = some instr := by
  have inside := (List.getElem?_eq_some_iff.mp access).1
  have position : (BitVec.ofNat 64 (i * instrSize)).toNat = i * instrSize := by
    rw [BitVec.toNat_ofNat]
    simp only [instrSize] at fits ⊢
    omega
  apply fetch_in_encoded
  · rw [position]
    simp only [instrSize] at fits ⊢
    omega
  · intro j within
    rw [position]
    exact stored_byte instructions memory memorySize i j instr fits access within

theorem stored_beyond (memory : Memory) (memorySize x : Nat) (instructions : List Instruction)
    (beyond : instructions.length * instrSize ≤ x) : storeMachineCode memory memorySize instructions x = memory x := by
  rw [storeMachineCode]
  split
  · rfl
  · have past : instructions[x / instrSize - 0]? = none := by
      rw [List.getElem?_eq_none_iff]
      simp only [instrSize] at beyond ⊢
      omega
    rw [store_from_apply, past]

-- Below 2^31 bytes the int counter of the loop stays in range, and the size_t
-- product is the size of an array that exists, so it does not wrap.
theorem machine_code_round_trip (memory : Memory) (memorySize : Nat) (instructions : List Instruction)
    (bounded : memorySize < 2 ^ 31) :
    (instructions.length * instrSize + instrSize ≤ memorySize →
      (∀ i instr, instructions[i]? = some instr →
        fetchIn memorySize (storeMachineCode memory memorySize instructions) (BitVec.ofNat 64 (i * instrSize)) = some instr) ∧
      (∀ x, instructions.length * instrSize ≤ x → storeMachineCode memory memorySize instructions x = memory x)) ∧
    (memorySize < instructions.length * instrSize + instrSize →
      storeMachineCode memory memorySize instructions = memory) := by
  refine ⟨fun fits => ⟨fun i instr access => ?_, fun x beyond => ?_⟩, fun full => ?_⟩
  · exact stored_fetched memory memorySize i instructions instr bounded fits access
  · exact stored_beyond memory memorySize x instructions beyond
  · exact if_pos full

theorem machine_code_round_trip_halt :
    fetchIn memSize (storeMachineCode (fun _ => 0) memSize [⟨5, 1, 6, 1⟩, haltInstr]) 11 = some haltInstr := by
  have fits : [⟨5, 1, 6, 1⟩, haltInstr].length * instrSize + instrSize ≤ memSize := by decide
  exact ((machine_code_round_trip (fun _ => 0) memSize _ (by decide)).1 fits).1 1 haltInstr rfl

end CpuEmulator.Userspace
