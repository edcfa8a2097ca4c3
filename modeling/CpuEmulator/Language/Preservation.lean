import CpuEmulator.Language.Simulation
import CpuEmulator.Userspace.Main

set_option autoImplicit false

namespace CpuEmulator.Language

open Library Assembler Isa Driver Userspace

section Step

variable (items : List Item) (code : List Instruction) (compiled : Compiled items code)

include compiled

theorem compiled_length : code.length = (statementsOf items).length + 1 := by
  obtain ⟨instrs, rfl, each⟩ := compiled.denotes
  rw [List.length_append, List.length_singleton, ← each.length_eq]

theorem compiled_end : code[(statementsOf items).length]? = some haltInstr := by
  obtain ⟨instrs, rfl, each⟩ := compiled.denotes
  rw [each.length_eq, List.getElem?_append_right (Nat.le_refl _), Nat.sub_self, List.getElem?_cons_zero]

theorem compiled_statement (i : Nat) (statement : Statement) (here : (statementsOf items)[i]? = some statement) :
    ∃ instr, code[i]? = some instr ∧ statement.Denotes (targetOf items) instr := by
  obtain ⟨instrs, rfl, each⟩ := compiled.denotes
  obtain ⟨inside, rfl⟩ := List.getElem?_eq_some_iff.mp here
  have bound : i < instrs.length := each.length_eq ▸ inside
  refine ⟨instrs[i], ?_, each.get inside bound⟩
  rw [List.getElem?_append_left bound, List.getElem?_eq_getElem bound]

theorem compiled_instruction (raw : Instruction) (member : raw ∈ code) :
    raw = haltInstr ∨ ∃ statement ∈ statementsOf items, statement.Denotes (targetOf items) raw := by
  obtain ⟨instrs, rfl, each⟩ := compiled.denotes
  obtain inside | last := List.mem_append.mp member
  · obtain ⟨i, bound, rfl⟩ := List.getElem_of_mem inside
    have there : i < (statementsOf items).length := each.length_eq.symm ▸ bound
    exact Or.inr ⟨(statementsOf items)[i], List.getElem_mem there, each.get there bound⟩
  · exact Or.inl (List.mem_singleton.mp last)

end Step

section Places

variable (items rest : List Item)

theorem place_finished (none : nextStatement rest = none) : place items rest = (statementsOf items).length := by
  rw [place, next_statement_none rest none, List.length_nil, Nat.sub_zero]

theorem place_next (suffix : rest <:+ items) (statement : Statement) (text : Text) (behind : List Item)
    (next : nextStatement rest = some (statement, text, behind)) :
    (statementsOf items)[place items rest]? = some statement ∧ place items behind = place items rest + 1 ∧ behind <:+ items := by
  obtain ⟨here, _, later⟩ := next_statement_some rest behind statement text next
  obtain ⟨dropped, bound, _⟩ := suffix_place items rest suffix
  have length := congrArg List.length here
  rw [List.length_cons] at length
  obtain ⟨front, rfl⟩ := suffix
  rw [place, place, statements_of_append, List.length_append] at *
  refine ⟨?_, by omega, later.trans (List.suffix_append front rest)⟩
  rw [← List.head?_drop, dropped, here, List.head?_cons]

end Places

theorem denoted_mode (items : List Item) (statement : Statement) (raw : Instruction) (denotes : statement.Denotes (targetOf items) raw) :
    modeOf raw.mode = some .directLoad ∨ modeOf raw.mode = some .directStore →
      (∃ target address, statement = .load target address ∧ raw.operand1 = BitVec.ofNat 8 target.val) ∨
        ∃ address source, statement = .store address source ∧ raw.operand1 = BitVec.ofNat 8 source.val ∧
          raw.operand2 = address.value := by
  intro direct
  have other (mode : Mode) (same : raw.mode = mode.code) (plain : modeOf mode.code = some mode) (load : mode ≠ .directLoad)
      (store : mode ≠ .directStore) : False := by
    rw [same, plain] at direct
    rcases direct with direct | direct
    · exact load (Option.some.inj direct)
    · exact store (Option.some.inj direct)
  cases statement with
  | registers op first second => exact (other .register (congrArg Instruction.mode denotes) rfl (by decide) (by decide)).elim
  | literal op first value => exact (other .immediate (congrArg Instruction.mode denotes) rfl (by decide) (by decide)).elim
  | load target address => exact Or.inl ⟨target, address, rfl, congrArg Instruction.operand1 denotes⟩
  | store address source =>
      exact Or.inr ⟨address, source, rfl, congrArg Instruction.operand1 denotes, congrArg Instruction.operand2 denotes⟩
  | negate register => exact (other .register denotes.2.1 rfl (by decide) (by decide)).elim
  | branch op label => exact (other .label denotes.2.1 rfl (by decide) (by decide)).elim

theorem scaled_place (i : Nat) (small : i * instrSize < 2 ^ 64) :
    (BitVec.ofNat 64 i * BitVec.ofNat 64 instrSize).toNat = i * instrSize := by
  rw [← BitVec.ofNat_mul, BitVec.toNat_ofNat, Nat.mod_eq_of_lt small]

section Run

variable (items : List Item) (code : List Instruction) (bytes : Nat) (compiled : Compiled items code) (closed : Closed items)
  (above : Above items bytes) (fits : code.length * instrSize + instrSize ≤ memSize)

include compiled closed above fits

theorem step_follows (input : U64) (m : Machine) (st : SourceState) (simulates : Simulates items bytes m st) :
    Follows items bytes (Isa.step code input m) (sourceStep items input st) := by
  have length := compiled_length items code compiled
  simp only [length, memSize, instrSize] at fits
  have quotient : m.pc.toNat / instrSize = place items st.rest := by
    rw [simulates.pc, Nat.mul_div_cancel _ (by decide)]
  rw [Isa.step, quotient, sourceStep]
  cases next : nextStatement st.rest with
  | none =>
      rw [place_finished items st.rest next, compiled_end items code compiled]
      exact .stopped (.halted m st simulates.data)
  | some found =>
      obtain ⟨statement, text, rest⟩ := found
      obtain ⟨here, advanced, suffix⟩ := place_next items st.rest simulates.here statement text rest next
      obtain ⟨instr, access, denotes⟩ := compiled_statement items code compiled _ statement here
      have inside := (List.getElem?_eq_some_iff.mp here).1
      have done := statement_done items bytes input m { st with rest := rest } ⟨simulates.data.regs, simulates.data.flags,
        simulates.data.memory⟩ statement instr denotes above closed (List.mem_of_getElem? here)
      rw [access]
      dsimp only
      generalize Isa.perform input m (decode instr) = machine at done ⊢
      generalize perform items input { st with rest := rest } statement = reader at done ⊢
      cases done with
      | advanced m' st' pc same data =>
          refine .running ⟨data, by rw [same]; exact suffix, ?_⟩
          rw [same, advanced, pc, BitVec.toNat_add, simulates.pc]
          simp only [instrSize, BitVec.toNat_ofNat]
          omega
      | jumped label m' target found pc data =>
          have behind := Addresses.after_suffix Item.kind label.name items target found
          have bound := (suffix_place items target behind).2.1
          refine .running ⟨⟨data.regs, data.flags, data.memory⟩, behind, ?_⟩
          rw [pc, targetOf, found, Option.map_some, Option.getD_some]
          exact scaled_place _ (by simp only [instrSize]; omega)
      | stopped stop ended ends => exact .stopped ends

theorem run_follows (image memory : Nat → U8) (same : ∀ x, bytes ≤ x → image x = memory x) (inputs : Nat → U64) (k : Nat) :
    Follows items bytes (Isa.run code inputs (Isa.start image) k) (sourceRun items inputs memory k) := by
  refine (Progress.iterate_related _ _ (fun _ => True) _ _ _ _ ?_ (fun _ _ => trivial) (fun _ _ _ _ _ => trivial)
    (fun j m st simulates _ => step_follows items code bytes compiled closed above fits (inputs j) m st simulates) k).1
  refine .running ⟨⟨rfl, rfl, same⟩, List.suffix_refl items, ?_⟩
  rw [place, sourceStart, Nat.sub_self, Nat.zero_mul]
  rfl

end Run

section Programs

variable (items : List Item) (code : List Instruction) (compiled : Compiled items code) (closed : Closed items)

include compiled closed

theorem denoted_branch (statement : Statement) (raw : Instruction) (member : statement ∈ statementsOf items)
    (denotes : statement.Denotes (targetOf items) raw) (op : Opcode) (opcode : opcodeOf raw.opcode = some op)
    (jumps : op.isBranch = true) : raw.operand2.toNat < code.length := by
  have length := compiled_length items code compiled
  have plain (other : Opcode) (same : raw.opcode = other.code) (straight : other.isBranch = false) : False := by
    rw [same, opcode_of_code] at opcode
    obtain rfl := Option.some.inj opcode
    rw [jumps] at straight
    cases straight
  have straight (other : { op // takesTwo op = true }) : other.val.isBranch = false := by
    have two := other.property
    simp only [takesTwo, Bool.and_eq_true, Bool.not_eq_true'] at two
    exact two.1
  cases statement with
  | registers other first second => exact (plain other.val (congrArg Instruction.opcode denotes) (straight other)).elim
  | literal other first value => exact (plain other.val (congrArg Instruction.opcode denotes) (straight other)).elim
  | load target address => exact (plain .mov (congrArg Instruction.opcode denotes) rfl).elim
  | store address source => exact (plain .mov (congrArg Instruction.opcode denotes) rfl).elim
  | negate register => exact (plain .not denotes.1 rfl).elim
  | branch other label =>
      obtain ⟨rest, found⟩ := Addresses.after_defined Item.kind label.name items (closed.labelled other label member)
      have bound := (suffix_place items rest (Addresses.after_suffix Item.kind label.name items rest found)).2.1
      rw [denotes.2.2, targetOf, found, Option.map_some, Option.getD_some, BitVec.toNat_ofNat]
      exact Nat.lt_of_le_of_lt (Nat.mod_le _ _) (by omega)

end Programs

theorem small_register : ∀ register : Fin 4, (BitVec.ofNat 8 register.val).toNat < 4 := by decide

def programOf (items : List Item) (code : List Instruction) (compiled : Compiled items code) (closed : Closed items)
    (above : Above items (code.length * instrSize)) (fits : code.length * instrSize + instrSize ≤ memSize) :
    Userspace.Program where
  code := code
  halts := by
    obtain ⟨instrs, rfl, _⟩ := compiled.denotes
    exact List.getLast?_concat
  fits := fits
  branches := by
    intro raw member op opcode jumps
    rcases compiled_instruction items code compiled raw member with rfl | ⟨statement, there, denotes⟩
    · obtain rfl : Opcode.mov = op := Option.some.inj opcode
      cases jumps
    · exact denoted_branch items code compiled closed statement raw there denotes op opcode jumps
  registers := by
    intro raw member direct
    rcases compiled_instruction items code compiled raw member with rfl | ⟨statement, _, denotes⟩
    · decide
    · rcases denoted_mode items statement raw denotes direct with ⟨target, _, _, operand⟩ | ⟨_, source, _, operand, _⟩
      · rw [operand]
        exact small_register target
      · rw [operand]
        exact small_register source
  stores := by
    intro raw member store plain
    rcases compiled_instruction items code compiled raw member with rfl | ⟨statement, there, denotes⟩
    · exact absurd plain (by decide)
    · rcases denoted_mode items statement raw denotes (Or.inr store) with ⟨target, address, rfl, _⟩ |
        ⟨address, source, rfl, _, operand⟩
      · have mode : raw.mode = Mode.directLoad.code := congrArg Instruction.mode denotes
        rw [mode] at store
        exact absurd store (by decide)
      · rw [operand] at plain ⊢
        exact above.stores address source there plain

def codeBytes (items : List Item) : Nat := ((statementsOf items).length + 1) * instrSize

-- The registers and flags in the driver and the memory of the client are those
-- of the source's machine, and the pc stands on the statement that comes next.
def Carries (items : List Item) (st : RunState) (src : SourceState) : Prop :=
  Simulates items (codeBytes items) (view st.ctx.cpu st.memory) src

inductive Closes (items : List Item) : LoopEnd → SourceStop → Prop where
  | finished (st : RunState) (src : SourceState) (data : SameData (codeBytes items) (view st.ctx.cpu st.memory) src) :
      Closes items (.exit 0 st) (.finished src)
  | rejected (st : RunState) (src : SourceState) (data : SameData (codeBytes items) (view st.ctx.cpu st.memory) src) :
      Closes items (.exit 0 st) (.rejected src)

-- main is in the loop while the source's machine runs, and has gone on to the
-- cache simulation when it has stopped.
inductive Reports (items : List Item) : MainState → SourceProgress → Prop where
  | inRun (st : RunState) (src : SourceState) (carries : Carries items st src) : Reports items (.inRun st) (.running src)
  | exited (stop : SourceStop) : Reports items (.exited exitSuccess true) (.stopped stop)

-- A file with this listing that main can load: short lines, no label missing,
-- room for the code, and data kept off it.
structure Runnable (source : SourceFile) (items : List Item) : Prop where
  short : ∀ line ∈ sourceLines source.bytes, line.length < maxLen
  listed : Listing (sourceLines source.bytes) items
  closed : Closed items
  above : Above items (codeBytes items)
  fits : codeBytes items + instrSize ≤ memSize

theorem to_int_small (n : Nat) (small : n < 2 ^ 31) : toInt n = n := by
  rw [toInt, BitVec.toInt_eq_toNat_of_lt (by rw [BitVec.toNat_ofNat]; omega), BitVec.toNat_ofNat, Nat.mod_eq_of_lt (by omega)]

section Loaded

variable (source : SourceFile) (items : List Item) (runnable : Runnable source items) (program : Assembler.Program)
  (compiled : Compiled items program.instructions) (texts : program.instructionText = textsOf items ++ [haltText])

include compiled

theorem compiled_bytes : program.instructions.length * instrSize = codeBytes items := by
  rw [compiled_length items _ compiled, codeBytes]

include texts in
theorem loaded_named : (loaded program).text.length = program.instructions.length := by
  change program.instructionText.length = _
  rw [texts, List.length_append, texts_of_length, compiled_length items _ compiled]
  rfl

include runnable

theorem loaded_count : (loaded program).count = program.instructions.length := by
  have fits := runnable.fits
  rw [← compiled_bytes items program compiled] at fits
  simp only [instrSize, memSize] at fits
  exact to_int_small _ (by omega)

def listedProgram : Userspace.Program :=
  programOf items program.instructions compiled runnable.closed
    (compiled_bytes items program compiled ▸ runnable.above) (compiled_bytes items program compiled ▸ runnable.fits)

structure Stands (st : RunState) (src : SourceState) : Prop where
  ready : Ready st (view st.ctx.cpu st.memory)
  carries : Carries items st src
  inside : AtInstruction (listedProgram source items runnable program compiled)
    (storeMachineCode blankMemory memSize program.instructions) (view st.ctx.cpu st.memory)

include texts in
theorem loop_stands (opening : OpenEnv) (board : Board) (envs : Nat → IterEnv) (opens : Opens opening)
    (succeeds : ∀ k, Succeeds (envs k)) (k : Nat) :
    Progress.Related (Stands source items runnable program compiled) (Closes items)
      (runLoop (loaded program).text (loaded program).count envs (runStart opening board (loaded program).memory) k)
      (sourceRun items (fun j => BitVec.ofInt 64 (envs j).read.input) blankMemory k) := by
  have bytes := compiled_bytes items program compiled
  have fits := runnable.fits
  have above := runnable.above
  rw [← bytes] at fits above
  obtain ⟨matched, reached⟩ := loop_lockstep (listedProgram source items runnable program compiled) (loaded program).text envs
    (loaded_named items program compiled texts) blankMemory board opening opens succeeds k
  have beyond : ∀ x, program.instructions.length * instrSize ≤ x →
      storeMachineCode blankMemory memSize program.instructions x = blankMemory x :=
    fun x outside => stored_beyond blankMemory memSize x _ outside
  have follows := run_follows items _ _ compiled runnable.closed above fits _ blankMemory beyond
    (fun j => BitVec.ofInt 64 (envs j).read.input) k
  rw [loaded_count source items runnable program compiled]
  refine Progress.related_compose _ _ _ _ _ _ _ _ _ (Progress.related_and _ _ _ _ _ matched reached) follows
    (fun st m src ready simulates => ?_) (fun ended stop closing first second => ?_)
  · obtain ⟨⟨rfl, position, isInstruction, fetched⟩, inside⟩ := ready
    refine ⟨⟨rfl, position, isInstruction, fetched⟩, ?_, inside⟩
    rw [Carries, ← bytes]
    exact simulates
  · rw [bytes] at second
    cases first with
    | halted st =>
        cases second with
        | halted _ src data => exact .finished st src data
    | rejected st =>
        cases second with
        | rejected _ src data => exact .rejected st src data

include texts in
theorem loop_carries (opening : OpenEnv) (board : Board) (envs : Nat → IterEnv) (opens : Opens opening)
    (succeeds : ∀ k, Succeeds (envs k)) (k : Nat) :
    Progress.Related (Carries items) (Closes items)
      (runLoop (loaded program).text (loaded program).count envs (runStart opening board (loaded program).memory) k)
      (sourceRun items (fun j => BitVec.ofInt 64 (envs j).read.input) blankMemory k) := by
  have stands := loop_stands source items runnable program compiled texts opening board envs opens succeeds k
  generalize runLoop _ _ envs _ k = client at stands ⊢
  generalize sourceRun items _ blankMemory k = reader at stands ⊢
  cases stands with
  | running stands => exact .running stands.carries
  | stopped closes => exact .stopped closes

end Loaded

theorem loop_reports (items : List Item) (program : Assembler.Program) (alloc : Nat → Assembler.Memory) (source : SourceFile)
    (returned : parseAssembly alloc (some source) = .ok program) (opening : OpenEnv) (board : Board) (envs : Nat → IterEnv) (k : Nat)
    (reader : SourceProgress) (related : Progress.Related (Carries items) (Closes items)
      (runLoop (loaded program).text (loaded program).count envs (runStart opening board (loaded program).memory) k) reader) :
    Reports items (mainAfter alloc (some source) opening board envs k) reader := by
  rw [mainAfter, run_called alloc (some source) program returned]
  dsimp only
  generalize runLoop _ _ envs _ k = client at related ⊢
  cases related with
  | running carries => exact .inRun _ _ carries
  | stopped closes =>
      cases closes with
      | finished st src data => exact .exited _
      | rejected st src data => exact .exited _

section CountOnce

def countLabel : Label := ⟨['L'], ⟨by decide, by decide⟩, by decide⟩

def numeralOne : Numeral 10 := ⟨['1'], List.cons_ne_nil _ _, List.all_eq_true.mp rfl, by decide⟩

def addOneItem : Item := .statement (.literal ⟨.add, rfl⟩ 0 numeralOne) ['A', 'D', 'D', ' ', 'R', '0', ',', ' ', '1']

-- ADD R0, 1
-- L:
-- JG L ; on
def countOnce : List Item :=
  [addOneItem, .label ['L'], .statement (.branch ⟨.jg, rfl⟩ countLabel) ['J', 'G', ' ', 'L', ' ', ';', ' ', 'o', 'n']]

def countOnceSource : SourceFile :=
  ⟨['A', 'D', 'D', ' ', 'R', '0', ',', ' ', '1', '\n', 'L', ':', '\n', 'J', 'G', ' ', 'L', ' ', ';', ' ', 'o', 'n', '\n'],
    by decide⟩

theorem count_once_runnable : Runnable countOnceSource countOnce where
  short := by decide
  listed := .cons _ _ _ _ (.statement _ ⟨0, 0, 0, 1, 0, true⟩ rfl rfl)
    (.cons _ _ _ _ (.label _ rfl (by decide)) (.cons _ _ _ _ (.statement _ ⟨0, 0, 0, 0, 1, false⟩ rfl rfl) .nil))
  closed := ⟨fun op label member => by
    rcases List.mem_cons.mp member with same | member
    · cases same
    · cases List.mem_singleton.mp member
      exact ⟨.label ['L'], List.mem_cons_of_mem _ List.mem_cons_self, rfl⟩⟩
  above := ⟨fun target address member => by simp [statementsOf, countOnce, addOneItem] at member,
    fun address source member => by simp [statementsOf, countOnce, addOneItem] at member⟩
  fits := by decide

end CountOnce

-- From the text of a program to what the driver, the client and main make of it:
-- every pass of the loop is one step of the source's machine.
theorem source_meaning_preserved (alloc : Nat → Assembler.Memory) (allocates : Allocates alloc) (source : SourceFile)
    (items : List Item) (runnable : Runnable source items) :
    ∃ program, parseAssembly alloc (some source) = .ok program ∧
      ∀ opening board envs, Opens opening → (∀ k, Succeeds (envs k)) → ∀ k,
        Progress.Related (Carries items) (Closes items)
          (runLoop (loaded program).text (loaded program).count envs (runStart opening board (loaded program).memory) k)
          (sourceRun items (fun j => BitVec.ofInt 64 (envs j).read.input) blankMemory k) ∧
        Reports items (mainAfter alloc (some source) opening board envs k)
          (sourceRun items (fun j => BitVec.ofInt 64 (envs j).read.input) blankMemory k) := by
  obtain ⟨program, returned⟩ := listing_returned alloc source items runnable.short runnable.listed allocates
  obtain ⟨compiled, texts⟩ := returned_compiled alloc source items program runnable.short runnable.listed runnable.closed returned
  refine ⟨program, returned, fun opening board envs opens succeeds k => ?_⟩
  have carries := loop_carries source items runnable program compiled texts opening board envs opens succeeds k
  exact ⟨carries, loop_reports items program alloc source returned opening board envs k _ carries⟩

theorem source_meaning_preserved_count_once :
    ∃ st, mainAfter freeMemory (some countOnceSource) startedOpening darkBoard (fun _ => pressedEnv) 3 = .inRun st ∧
      st.ctx.cpu.regs 0 = 1 := by
  obtain ⟨_, _, preserved⟩ := source_meaning_preserved freeMemory (fun _ => ⟨rfl, rfl⟩) countOnceSource countOnce count_once_runnable
  have reports := (preserved startedOpening darkBoard (fun _ => pressedEnv) ⟨by decide, rfl, by decide⟩
    (fun _ => ⟨rfl, rfl, rfl, rfl, Or.inr rfl⟩) 3).2
  have done : sourceRun countOnce (fun _ => BitVec.ofInt 64 pressedEnv.read.input) blankMemory 3 =
      .running ⟨Function.update (fun _ => 0) 0 1, .gt, blankMemory, countOnce.drop 2⟩ := rfl
  rw [done] at reports
  generalize mainAfter _ _ _ _ _ _ = client at reports ⊢
  cases reports with
  | inRun st _ carries => exact ⟨st, rfl, congrFun carries.data.regs 0⟩

end CpuEmulator.Language
