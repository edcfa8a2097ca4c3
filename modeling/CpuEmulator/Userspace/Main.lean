import CpuEmulator.Assembler.Assembled
import CpuEmulator.Assembler.Capacity
import CpuEmulator.Userspace.ProgramRefinement

set_option autoImplicit false

namespace CpuEmulator.Userspace

open Library Driver

-- num_instructions is a size_t, the parameter count of run an int.
def toInt (n : Nat) : Int := (BitVec.ofNat 32 n).toInt

-- memory[MEM_SIZE] = {0}
def blankMemory : Memory := fun _ => 0

structure RunCall where
  memory : Memory
  text : List (List Char)
  count : Int

-- Phase 2 and the call of phase 3. store_machine_code returns nothing, whether
-- or not it has stored the program.
def loaded (program : Assembler.Program) : RunCall where
  memory := storeMachineCode blankMemory memSize program.instructions
  text := program.instructionText
  count := toInt program.instructions.length

def runCall (alloc : Nat → Assembler.Memory) (source : Option Assembler.SourceFile) : Except Assembler.Failure RunCall :=
  (Assembler.parseAssembly alloc source).map loaded

def exitSuccess : Int := 0
def exitFailure : Int := 1

inductive MainState where
  | parsing (failure : Assembler.Failure)
  | inRun (st : RunState)
  | exited (status : Int) (cacheSim : Bool)
  | fault

-- main after at most k passes of the loop in run; cacheSim is whether it has
-- come to run_cache_sim.
def mainAfter (alloc : Nat → Assembler.Memory) (source : Option Assembler.SourceFile) (opening : OpenEnv) (board : Board)
    (envs : Nat → IterEnv) (k : Nat) : MainState :=
  match runCall alloc source with
  | .error .null => .exited exitFailure false
  | .error failure => .parsing failure
  | .ok call =>
      match runLoop call.text call.count envs (runStart opening board call.memory) k with
      | .running st => .inRun st
      | .stopped .fault => .fault
      | .stopped (.exit ret _) => if ret ≠ 0 then .exited exitFailure false else .exited exitSuccess true

theorem main_faults (alloc : Nat → Assembler.Memory) (source : Option Assembler.SourceFile) (opening : OpenEnv) (board : Board)
    (envs : Nat → IterEnv) (k : Nat) (call : RunCall) (called : runCall alloc source = .ok call)
    (faults : runLoop call.text call.count envs (runStart opening board call.memory) k = .stopped .fault) :
    mainAfter alloc source opening board envs k = .fault := by
  rw [mainAfter, called]
  dsimp only
  rw [faults]

-- The test with which store_machine_code prints its message and returns.
def Refuses (program : Assembler.Program) : Prop :=
  memSize < program.instructions.length * instrSize + instrSize

instance (program : Assembler.Program) : Decidable (Refuses program) := inferInstanceAs (Decidable (_ < _))

-- run is called for no program that was refused, and where it is called each
-- instruction of the program is there to be fetched.
structure OnlyRunsStored (alloc : Nat → Assembler.Memory) (source : Option Assembler.SourceFile) (program : Assembler.Program) :
    Prop where
  refused : Refuses program → ∀ call, runCall alloc source ≠ .ok call
  stored : ∀ call, runCall alloc source = .ok call → ∀ i instr, program.instructions[i]? = some instr →
    fetchNext call.memory (BitVec.ofNat 64 (i * instrSize)) = some instr

theorem refused_memory (program : Assembler.Program) (refuses : Refuses program) : (loaded program).memory = blankMemory :=
  if_pos refuses

section Calls

variable (alloc : Nat → Assembler.Memory) (source : Option Assembler.SourceFile) (program : Assembler.Program)
  (returned : Assembler.parseAssembly alloc source = .ok program)

include returned

theorem run_called : runCall alloc source = .ok (loaded program) := by
  rw [runCall, returned]
  rfl

-- Every returned program is run; the ones that fit are the ones that are stored.
theorem only_runs_stored_iff : OnlyRunsStored alloc source program ↔ ¬ Refuses program := by
  have called := run_called alloc source program returned
  constructor
  · exact fun held refuses => held.refused refuses _ called
  · intro fits
    refine ⟨fun refuses => absurd refuses fits, fun call same i instr found => ?_⟩
    rw [called] at same
    obtain rfl := Except.ok.inj same
    rw [fetch_next_in]
    exact stored_fetched blankMemory memSize i program.instructions instr (by decide) (Nat.le_of_not_lt fits) found

end Calls

section Blank

-- Eleven zero bytes are ADD R0, 0.
def blankInstr : Instruction := ⟨0, 0, 0, 0⟩

theorem blank_fetch (pc : U64) (inside : pc.toNat + 10 < memSize) : fetchNext blankMemory pc = some blankInstr := by
  have zeros : leWord 64 (fun _ => (0 : U8)) 8 = 0 := by decide
  rw [fetchNext, if_pos inside]
  exact congrArg (fun operand => some (Instruction.mk operand 0 0 0)) zeros

structure OverBlank (k : Nat) (st : RunState) : Prop where
  memory : st.memory = blankMemory
  pc : st.ctx.cpu.pc = BitVec.ofNat 64 (k * instrSize)
  position : st.readBuf.pc = st.ctx.cpu.pc
  mode : st.writeBuf.isInstruction = 1
  instruction : st.writeBuf.instruction = blankInstr

variable (text : List (List Char)) (count : Int) (env : IterEnv) (k : Nat) (st : RunState)

theorem blank_executed (blank : OverBlank k st) : (passExecuted env st).ret = execSuccess ∧
    (passExecuted env st).cpu.pc = BitVec.ofNat 64 ((k + 1) * instrSize) := by
  rw [passExecuted, blank.instruction]
  refine ⟨rfl, ?_⟩
  change st.ctx.cpu.pc + BitVec.ofNat 64 instrSize = _
  rw [blank.pc, ← BitVec.ofNat_add, Nat.succ_mul]

theorem blank_pass (blank : OverBlank k st) (ok : Succeeds env) (inMemory : k * instrSize + 10 < memSize) (within : (k : Int) < count)
    (named : k < text.length) : ∃ after, runIteration text count env st = refetch env after ∧ after.memory = blankMemory ∧
      after.readBuf.pc = BitVec.ofNat 64 ((k + 1) * instrSize) ∧ after.ctx.cpu.pc = after.readBuf.pc ∧
      after.writeBuf.isInstruction = 1 := by
  obtain ⟨code, pc⟩ := blank_executed env k st blank
  have reply : readBuf (passExecuted env st).cpu (passExecuted env st).ret =
      some ⟨(passExecuted env st).cpu.pc, 0, 0, execSuccess⟩ := by rw [code]; rfl
  have small : k * instrSize < 2 ^ 64 := by
    simp only [memSize] at inMemory
    omega
  have place : st.readBuf.pc.toNat = k * instrSize := by
    rw [blank.position, blank.pc, BitVec.toNat_ofNat, Nat.mod_eq_of_lt small]
  have index : instructionIndex st.readBuf.pc = k := by
    rw [instruction_index_in_memory _ (by rw [place]; exact inMemory), place, Nat.mul_div_cancel k (by decide)]
  have line : textAt text (instructionIndex st.readBuf.pc) = some text[k] := by
    rw [index, text_at_index, List.getElem?_eq_getElem named]
  refine ⟨print (.executed text[k]) (passReplied env st ⟨(passExecuted env st).cpu.pc, 0, 0, execSuccess⟩), ?_, ?_, ?_, ?_, ?_⟩
  · rw [pass_replied text count env st ok blank.mode _ (by rw [code]; decide) reply,
      after_read_within text count env _ text[k] _ (by rw [index]; exact within) line, serve_success _ _ rfl]
    rfl
  · exact blank.memory
  · exact pc
  · rfl
  · exact blank.mode

theorem blank_pass_goes_on (blank : OverBlank k st) (ok : Succeeds env) (inMemory : (k + 1) * instrSize + 10 < memSize)
    (within : (k : Int) < count) (named : k < text.length) :
    ∃ next, runIteration text count env st = .running next ∧ OverBlank (k + 1) next := by
  have here : k * instrSize + 10 < memSize := by
    simp only [memSize, instrSize] at inMemory ⊢
    omega
  obtain ⟨after, passed, memory, place, position, mode⟩ := blank_pass text count env k st blank ok here within named
  have inside : after.readBuf.pc.toNat + 10 < memSize := by
    rw [place, BitVec.toNat_ofNat]
    exact Nat.lt_of_le_of_lt (Nat.add_le_add_right (Nat.mod_le _ _) 10) inMemory
  rw [passed, refetch, memory, blank_fetch _ inside]
  refine ⟨_, rfl, ?_, ?_, ?_, ?_, ?_⟩
  · simpa [holdNext] using memory
  · simpa [holdNext, position] using place
  · simpa [holdNext] using position.symm
  · simpa [holdNext] using mode
  · simp [holdNext]

theorem blank_pass_faults (blank : OverBlank k st) (ok : Succeeds env) (inMemory : k * instrSize + 10 < memSize)
    (past : memSize ≤ (k + 1) * instrSize + 10) (within : (k : Int) < count) (named : k < text.length) :
    runIteration text count env st = .stopped .fault := by
  obtain ⟨after, passed, memory, place, _⟩ := blank_pass text count env k st blank ok inMemory within named
  have outside : ¬ after.readBuf.pc.toNat + 10 < memSize := by
    rw [place, BitVec.toNat_ofNat]
    simp only [memSize, instrSize] at inMemory past ⊢
    omega
  rw [passed, refetch, fetchNext, if_neg outside]

end Blank

-- The passes over a memory that holds no program run to its end, and the last
-- fetch reads past it.
theorem blank_run_faults (text : List (List Char)) (count : Int) (envs : Nat → IterEnv) (opening : OpenEnv) (board : Board)
    (opens : Opens opening) (succeeds : ∀ k, Succeeds (envs k)) (counted : 5957 ≤ count) (named : 5957 ≤ text.length) :
    runLoop text count envs (runStart opening board blankMemory) 5957 = .stopped .fault := by
  have started : ∃ st, runStart opening board blankMemory = .running st ∧ OverBlank 0 st := by
    simp only [runStart]
    simp only [device_opened opening board opens, if_neg (Int.not_lt.mpr opens.collector), blank_fetch 0 (by decide)]
    refine ⟨_, rfl, ?_, ?_, ?_, ?_, ?_⟩
    · simp
    · simp [freshContext]
    · simp [freshContext]
    · simp
    · simp
  have before (k : Nat) (below : k ≤ 5956) : ∃ st, runLoop text count envs (runStart opening board blankMemory) k = .running st ∧
      OverBlank k st := by
    induction k with
    | zero => exact started
    | succ k ih =>
        obtain ⟨st, reached, blank⟩ := ih (by omega)
        have inMemory : (k + 1) * instrSize + 10 < memSize := by
          simp only [memSize, instrSize]
          omega
        obtain ⟨next, passed, following⟩ := blank_pass_goes_on text count (envs k) k st blank (succeeds k) inMemory (by omega)
          (by omega)
        refine ⟨next, ?_, following⟩
        rw [← passed]
        exact Progress.iterate_from_running _ _ k st reached
  obtain ⟨st, reached, blank⟩ := before 5956 (Nat.le_refl _)
  rw [← blank_pass_faults text count (envs 5956) 5956 st blank (succeeds 5956) (by decide) (by decide) (by omega) (by omega)]
  exact Progress.iterate_from_running _ _ 5956 st reached

section Filler

open Assembler

def fillerWord : Text := ['A', 'D', 'D', ' ', 'R', '0', ',', ' ', 'R', '1']

def fillerBytes (n : Nat) : Text := (List.replicate n (fillerWord ++ ['\n'])).flatten

theorem filler_length (n : Nat) : (fillerBytes n).length = n * 11 := by
  rw [fillerBytes, List.length_flatten, List.map_replicate, List.sum_replicate_nat]
  rfl

theorem filler_lines (n : Nat) : sourceLines (fillerBytes n) = List.replicate n (fillerWord ++ ['\n']) := by
  induction n with
  | zero => rfl
  | succ n ih =>
      have first : fillerBytes (n + 1) = fillerWord ++ '\n' :: fillerBytes n := by
        rw [fillerBytes, List.replicate_succ, List.flatten_cons, List.append_assoc]
        rfl
      rw [first, source_lines_line fillerWord _ (by simp [fillerWord]), ih, List.replicate_succ]

theorem filler_emitted (n : Nat) : Library.Addresses.emitted kindOf (List.replicate n (fillerWord ++ ['\n'])) =
    List.replicate n (fillerWord ++ ['\n']) :=
  List.filter_eq_self.mpr fun line member => by
    rw [List.eq_of_mem_replicate member]
    decide

def fillerSource (n : Nat) (short : n * 11 < 2 ^ 63) : SourceFile := ⟨fillerBytes n, by rw [filler_length]; exact short⟩

theorem filler_program (alloc : Nat → Assembler.Memory) (allocates : Allocates alloc) (n : Nat) (short : n * 11 < 2 ^ 63) :
    ∃ program, parseAssembly alloc (some (fillerSource n short)) = .ok program ∧ program.instructions.length = n + 1 ∧
      program.instructionText.length = n + 1 := by
  have fits : ∀ line ∈ sourceLines (fillerSource n short).bytes, line.length < maxLen := by
    intro line member
    rw [fillerSource, filler_lines] at member
    rw [List.eq_of_mem_replicate member]
    decide
  obtain ⟨idle, turned, empty⟩ := turns_source_lines _ (fillerSource n short).bytes (Nat.lt_succ_self _) fits
  have emits : Library.Addresses.emitted kindOf (sourceLines (fillerSource n short).bytes ++ idle) =
      List.replicate n (fillerWord ++ ['\n']) := by
    rw [Library.Addresses.emitted_append, emitted_idle idle empty, List.append_nil, fillerSource, filler_lines, filler_emitted]
  have compiled (labels : Labels) : (parseLine ⟨visible (fillerWord ++ ['\n']), []⟩ labels).isSome := rfl
  obtain ⟨program, returned⟩ := (returned_iff_assembled alloc (fillerSource n short) _ turned allocates).mpr (by
    rw [assembled, Option.isSome_map, compile_all_is_some, emits]
    intro line member
    rw [List.eq_of_mem_replicate member]
    exact compiled _)
  obtain ⟨last, accepted⟩ := parse_assembly_returns alloc (fillerSource n short) _ program turned returned
  have count := accepted.compiled.length_eq
  rw [emits, List.length_replicate] at count
  have length : program.instructions.length = n + 1 := by
    rw [accepted.halted, List.length_append, List.length_singleton, ← count]
  exact ⟨program, returned, length, (returned_even alloc _ program returned).trans length⟩

end Filler

def freeMemory : Nat → Assembler.Memory := fun _ => ⟨true, true, []⟩

theorem only_runs_stored_iff_fits : ∃ program, Assembler.parseAssembly freeMemory (some (fillerSource 5955 (by decide))) = .ok program ∧
    program.instructions.length = 5956 ∧ OnlyRunsStored freeMemory (some (fillerSource 5955 (by decide))) program := by
  obtain ⟨program, returned, length, _⟩ := filler_program freeMemory (fun _ => ⟨rfl, rfl⟩) 5955 (by decide)
  have fits : ¬ Refuses program := by
    rw [Refuses, length]
    decide
  exact ⟨program, returned, length, (only_runs_stored_iff _ _ program returned).mpr fits⟩

-- One line more: with its HALT and the margin for one more the program needs
-- 65538 bytes.
def unfitSource : Assembler.SourceFile := fillerSource 5956 (by decide)

theorem unfit_program_is_run : ∃ program, Assembler.parseAssembly freeMemory (some unfitSource) = .ok program ∧
    Refuses program ∧ (loaded program).memory = blankMemory ∧ ¬ OnlyRunsStored freeMemory (some unfitSource) program ∧
    ∀ opening board envs, Opens opening → (∀ k, Succeeds (envs k)) →
      mainAfter freeMemory (some unfitSource) opening board envs 5957 = .fault := by
  obtain ⟨program, returned, length, texts⟩ := filler_program freeMemory (fun _ => ⟨rfl, rfl⟩) 5956 (by decide)
  have refuses : Refuses program := by
    rw [Refuses, length]
    decide
  have called := run_called freeMemory (some unfitSource) program returned
  have count : (loaded program).count = 5957 := by
    change toInt program.instructions.length = 5957
    rw [length]
    decide
  refine ⟨program, returned, refuses, refused_memory program refuses, fun held => held.refused refuses _ called,
    fun opening board envs opens succeeds => ?_⟩
  have faults := blank_run_faults (loaded program).text (loaded program).count envs opening board opens succeeds
    (Int.le_of_eq count.symm) (Nat.le_of_eq texts.symm)
  rw [← refused_memory program refuses] at faults
  exact main_faults freeMemory (some unfitSource) opening board envs 5957 _ called faults

end CpuEmulator.Userspace
