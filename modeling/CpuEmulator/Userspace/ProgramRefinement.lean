import CpuEmulator.Userspace.LoopRefinement

set_option autoImplicit false

namespace CpuEmulator.Userspace

open Library Driver Isa

-- A program as the assembler delivers it and main can load it: it ends with
-- HALT, leaves room for one more instruction, branches inside itself, names
-- existing registers in direct moves and does not store into its own bytes.
structure Program where
  code : List Instruction
  halts : code.getLast? = some haltInstr
  fits : code.length * instrSize + instrSize ≤ memSize
  branches : ∀ raw ∈ code, ∀ op, opcodeOf raw.opcode = some op → op.isBranch = true →
    raw.operand2.toNat < code.length
  registers : ∀ raw ∈ code, NamesRegister raw
  stores : ∀ raw ∈ code, modeOf raw.mode = some .directStore → raw.operand2 < dataLimit →
    code.length * instrSize ≤ raw.operand2.toNat

theorem binary_shape (make : Fin 4 → Source → Instr) (raw : Instruction) (instr : Instr)
    (decoded : binary make raw = some instr) : ∃ dst src, instr = make dst src := by
  simp only [binary] at decoded
  split at decoded
  · exact ⟨_, _, (Option.some.inj decoded).symm⟩
  · cases decoded

theorem decode_load_shape (raw : Instruction) (instr : Instr) (decoded : decodeLoad raw = some instr) :
    ∃ dst, instr = .load dst raw.operand2 ∨ instr = .input dst := by
  simp only [decodeLoad] at decoded
  split at decoded
  · cases decoded
  · rename_i dst _
    split at decoded
    · exact ⟨dst, Or.inl (Option.some.inj decoded).symm⟩
    · split at decoded
      · exact ⟨dst, Or.inr (Option.some.inj decoded).symm⟩
      · cases decoded

theorem decode_store_shape (raw : Instruction) (instr : Instr) (decoded : decodeStore raw = some instr) :
    instr = .halt ∨ ∃ src, (instr = .store src raw.operand2 ∧ raw.operand2 < dataLimit) ∨ instr = .output src := by
  simp only [decodeStore] at decoded
  split at decoded
  · exact Or.inl (Option.some.inj decoded).symm
  · split at decoded
    · cases decoded
    · rename_i src _
      split at decoded
      · rename_i plain
        exact Or.inr ⟨src, Or.inl ⟨(Option.some.inj decoded).symm, plain⟩⟩
      · split at decoded
        · exact Or.inr ⟨src, Or.inr (Option.some.inj decoded).symm⟩
        · cases decoded

def DecodedFrom (raw : Instruction) : Instr → Prop
  | .jump _ target => target = raw.operand2 ∧ ∃ op, opcodeOf raw.opcode = some op ∧ op.isBranch = true
  | .store _ addr => addr = raw.operand2 ∧ raw.operand2 < dataLimit ∧ modeOf raw.mode = some .directStore
  | _ => True

theorem binary_decoded (make : Fin 4 → Source → Instr) (raw : Instruction) (instr : Instr)
    (decoded : binary make raw = some instr) (harmless : ∀ dst src, DecodedFrom raw (make dst src)) :
    DecodedFrom raw instr := by
  obtain ⟨dst, src, rfl⟩ := binary_shape make raw instr decoded
  exact harmless dst src

theorem mov_decoded (raw : Instruction) (instr : Instr) (opcode : opcodeOf raw.opcode = some .mov)
    (decoded : decode raw = some instr) : DecodedFrom raw instr := by
  simp only [decode] at decoded
  rw [opcode] at decoded
  cases mode : modeOf raw.mode with
  | none =>
      simp only [mode] at decoded
      exact binary_decoded _ raw instr decoded (fun _ _ => trivial)
  | some kind =>
      simp only [mode] at decoded
      cases kind with
      | directLoad =>
          obtain ⟨dst, rfl | rfl⟩ := decode_load_shape raw instr decoded <;> trivial
      | directStore =>
          obtain rfl | ⟨src, ⟨rfl, plain⟩ | rfl⟩ := decode_store_shape raw instr decoded
          · trivial
          · exact ⟨rfl, plain, mode⟩
          · trivial
      | immediate | register | label => exact binary_decoded _ raw instr decoded (fun _ _ => trivial)

theorem decode_decoded (raw : Instruction) (instr : Instr) (decoded : decode raw = some instr) :
    DecodedFrom raw instr := by
  cases opcode : opcodeOf raw.opcode with
  | none => simp [decode, opcode] at decoded
  | some op =>
      cases op with
      | mov => exact mov_decoded raw instr opcode decoded
      | add | sub | and | or | cmp =>
          simp only [decode, opcode] at decoded
          exact binary_decoded _ raw instr decoded (fun _ _ => trivial)
      | not =>
          simp only [decode, opcode] at decoded
          split at decoded
          · obtain ⟨dst, _, rfl⟩ := Option.map_eq_some_iff.mp decoded
            trivial
          · cases decoded
      | jmp | je | jg | jl =>
          simp only [decode, opcode, Option.some.injEq] at decoded
          subst decoded
          exact ⟨rfl, _, opcode, rfl⟩

structure Moves (m m' : Machine) (instr : Instr) : Prop where
  target : m'.pc = m.pc + BitVec.ofNat 64 instrSize ∨
    ∃ cond target, instr = .jump cond target ∧ m'.pc = target * BitVec.ofNat 64 instrSize
  flags : FlagsKnown m.fr → FlagsKnown m'.fr
  memory : m'.memory = m.memory ∨
    ∃ src addr, instr = .store src addr ∧ m'.memory = writeCells m.memory addr.toNat (leByte (m.regs src)) 8

theorem execute_moves (input : U64) (m m' : Machine) (instr : Instr)
    (ran : execute input m instr = .running m') : Moves m m' instr := by
  cases instr with
  | assign op dst src | not dst | load dst addr | input dst =>
      cases ran
      exact ⟨Or.inl rfl, id, Or.inl rfl⟩
  | compare lhs rhs =>
      cases ran
      exact ⟨Or.inl rfl, fun _ => compare_flags_known _, Or.inl rfl⟩
  | jump cond target =>
      simp only [execute] at ran
      split at ran
      · cases ran
        exact ⟨Or.inr ⟨cond, target, rfl, rfl⟩, id, Or.inl rfl⟩
      · cases ran
        exact ⟨Or.inl rfl, id, Or.inl rfl⟩
  | store src addr =>
      cases ran
      exact ⟨Or.inl rfl, id, Or.inr ⟨src, addr, rfl, rfl⟩⟩
  | output src =>
      simp only [execute] at ran
      split at ran
      · cases ran
        exact ⟨Or.inl rfl, id, Or.inl rfl⟩
      · cases ran
  | halt => cases ran

structure AtInstruction (program : Program) (image : Memory) (m : Machine) : Prop where
  position : ∃ i, i < program.code.length ∧ m.pc.toNat = i * instrSize
  intact : ∀ x, x < program.code.length * instrSize → m.memory x = image x
  flags : FlagsKnown m.fr

theorem scaled_index (program : Program) (target : U64) (inside : target.toNat < program.code.length) :
    (target * BitVec.ofNat 64 instrSize).toNat = target.toNat * instrSize := by
  have fits := program.fits
  simp only [instrSize, memSize] at fits
  rw [BitVec.toNat_mul]
  apply Nat.mod_eq_of_lt
  simp only [instrSize, BitVec.toNat_ofNat]
  omega

theorem advanced_index (program : Program) (pc : U64) (i : Nat) (inside : i < program.code.length)
    (position : pc.toNat = i * instrSize) :
    (pc + BitVec.ofNat 64 instrSize).toNat = (i + 1) * instrSize := by
  have fits := program.fits
  simp only [instrSize, memSize] at fits
  rw [BitVec.toNat_add, position]
  simp only [instrSize, BitVec.toNat_ofNat] at position ⊢
  omega

theorem halt_decoded : decode haltInstr = some .halt := rfl

section Invariant

variable (program : Program) (image : Memory)

theorem step_at_instruction (m : Machine) (input : U64) (i : Nat) (raw : Instruction)
    (access : program.code[i]? = some raw) (position : m.pc.toNat = i * instrSize) :
    step program.code input m = perform input m (decode raw) := by
  have quotient : m.pc.toNat / instrSize = i := by
    simp only [instrSize] at position ⊢
    omega
  rw [step, quotient, access]

theorem running_has_successor (input : U64) (m m' : Machine) (i : Nat) (raw : Instruction)
    (access : program.code[i]? = some raw) (ran : perform input m (decode raw) = .running m') :
    i + 1 < program.code.length := by
  have bound := (List.getElem?_eq_some_iff.mp access).1
  by_cases last : i + 1 = program.code.length
  · have final := program.halts
    rw [List.getLast?_eq_getElem?, show program.code.length - 1 = i by omega, access] at final
    cases final
    rw [halt_decoded] at ran
    cases ran
  · omega

theorem at_instruction_step (input : U64) (m m' : Machine) (inv : AtInstruction program image m)
    (ran : step program.code input m = .running m') : AtInstruction program image m' := by
  obtain ⟨i, inside, position⟩ := inv.position
  have access := List.getElem?_eq_getElem inside
  generalize program.code[i] = raw at access
  have member := List.mem_of_getElem? access
  rw [step_at_instruction program m input i raw access position] at ran
  have successor := running_has_successor program input m m' i raw access ran
  cases decoded : decode raw with
  | none => simp [decoded, perform] at ran
  | some instr =>
      rw [decoded] at ran
      have origin := decode_decoded raw instr decoded
      have moves := execute_moves input m m' instr ran
      refine ⟨?_, ?_, moves.flags inv.flags⟩
      · rcases moves.target with next | ⟨cond, target, rfl, jumped⟩
        · exact ⟨i + 1, successor, next ▸ advanced_index program m.pc i inside position⟩
        · obtain ⟨rfl, op, opcode, branches⟩ := origin
          have target := program.branches raw member op opcode branches
          exact ⟨raw.operand2.toNat, target, jumped ▸ scaled_index program _ target⟩
      · intro x code
        rcases moves.memory with same | ⟨src, addr, rfl, stored⟩
        · rw [same]
          exact inv.intact x code
        · obtain ⟨rfl, plain, mode⟩ := origin
          have above := program.stores raw member mode plain
          rw [stored, write_cells_outside _ _ _ _ _ (Or.inl (by omega))]
          exact inv.intact x code

theorem fetch_at_instruction (blank : Memory) (m : Machine) (i : Nat) (raw : Instruction)
    (inv : AtInstruction program (storeMachineCode blank memSize program.code) m)
    (access : program.code[i]? = some raw) (position : m.pc.toNat = i * instrSize) :
    fetchNext m.memory m.pc = some raw := by
  have inside := (List.getElem?_eq_some_iff.mp access).1
  have fits := program.fits
  apply fetch_encoded
  · simp only [instrSize, memSize] at *
    omega
  · intro j within
    rw [inv.intact _ (by simp only [instrSize] at *; omega), position]
    exact stored_byte program.code blank memSize i j raw fits access within

theorem instruction_index_position (pc : U64) (i : Nat) (inside : i < program.code.length)
    (position : pc.toNat = i * instrSize) : instructionIndex pc = i := by
  have fits := program.fits
  have inMemory : pc.toNat + 10 < memSize := by
    simp only [instrSize] at position fits
    omega
  rw [instruction_index_in_memory pc inMemory, position, Nat.mul_div_cancel _ (by decide)]

theorem text_at_index (text : List (List Char)) (i : Nat) : textAt text i = text[i]? := by
  rw [textAt, if_neg (by omega), Int.toNat_natCast]

end Invariant

structure Opens (opening : OpenEnv) : Prop where
  switch : 0 ≤ opening.runSw
  allocated : opening.kzalloc = true
  collector : 0 ≤ opening.traceFd

theorem device_opened (opening : OpenEnv) (board : Board) (opens : Opens opening) :
    cpuOpen opening.runSw opening.pauseSw opening.kzalloc board =
      ({ board with cpuRunning := opening.runSw, cpuPaused := opening.pauseSw }, .ok freshContext) := by
  rw [cpuOpen, if_neg (Int.not_lt.mpr opens.switch), opens.allocated]
  rfl

theorem program_nonempty (program : Program) : 0 < program.code.length := by
  have final := program.halts
  cases code : program.code with
  | nil => simp [code] at final
  | cons raw rest => simp

theorem start_at_instruction (program : Program) (image : Memory) :
    AtInstruction program image (Isa.start image) :=
  ⟨⟨0, program_nonempty program, rfl⟩, fun _ _ => rfl, Or.inl rfl⟩

theorem run_start_ready (program : Program) (blank : Memory) (board : Board) (opening : OpenEnv)
    (opens : Opens opening) :
    Matches (runStart opening board (storeMachineCode blank memSize program.code))
      (.running (Isa.start (storeMachineCode blank memSize program.code))) := by
  have inside := program_nonempty program
  have access := List.getElem?_eq_getElem inside
  have fetched := fetch_at_instruction program blank _ 0 _ (start_at_instruction program _) access rfl
  have fetchedZero : fetchNext (storeMachineCode blank memSize program.code) 0 = some program.code[0] := fetched
  simp only [runStart]
  simp only [device_opened opening board opens, if_neg (Int.not_lt.mpr opens.collector), fetchedZero]
  exact .running ⟨by simp [view, freshContext, Isa.start], by simp [Isa.start], by simp, by simpa using fetched⟩

-- The driver and the client together, after k passes through the loop over an
-- image written by store_machine_code.
def system (program : Program) (text : List (List Char)) (blank : Memory) (board : Board) (opening : OpenEnv)
    (envs : Nat → IterEnv) : Nat → LoopStep :=
  runLoop text program.code.length envs (runStart opening board (storeMachineCode blank memSize program.code))

def reference (program : Program) (blank : Memory) (envs : Nat → IterEnv) : Nat → Outcome :=
  Isa.run program.code (fun j => BitVec.ofInt 64 (envs j).read.input)
    (Isa.start (storeMachineCode blank memSize program.code))

section Runs

variable (program : Program) (text : List (List Char)) (envs : Nat → IterEnv)

theorem pass_at_instruction (blank : Memory) (env : IterEnv) (st : RunState) (m : Machine) (i : Nat)
    (raw : Instruction) (line : List Char) (ok : Succeeds env) (ready : Ready st m)
    (inv : AtInstruction program (storeMachineCode blank memSize program.code) m)
    (access : program.code[i]? = some raw) (position : m.pc.toNat = i * instrSize)
    (named : text[i]? = some line) :
    Matches (runIteration text program.code.length env st)
        (step program.code (BitVec.ofInt 64 env.read.input) m) ∧
      ((∀ m', step program.code (BitVec.ofInt 64 env.read.input) m ≠ .stopped (.rejected m')) →
        Announces st.stdout line (runIteration text program.code.length env st)) := by
  have inside := (List.getElem?_eq_some_iff.mp access).1
  have held : st.writeBuf.instruction = raw :=
    Option.some.inj (ready.fetched.symm.trans (fetch_at_instruction program blank m i raw inv access position))
  have index : instructionIndex st.readBuf.pc = i := by
    rw [ready.position]
    exact instruction_index_position program m.pc i inside position
  have flags : FlagsKnown st.ctx.cpu.fr := by
    have known := inv.flags
    rwa [← ready.agrees] at known
  have settled := execute_settles env.read.input st.ctx.cpu (consumeStep st.board) raw st.memory ok.bit
    (program.registers raw (List.mem_of_getElem? access)) flags
  rw [ready.agrees, ← step_at_instruction program m _ i raw access position] at settled
  apply pass_settles text _ env st line ok ready.isInstruction
  · rw [passExecuted, held]
    exact settled
  · rw [index]
    exact Int.ofNat_lt.mpr inside
  · rw [index, text_at_index, named]
  · intro m' ran
    have next := at_instruction_step program _ _ m m' inv ran
    obtain ⟨j, nextInside, nextPosition⟩ := next.position
    exact ⟨_, fetch_at_instruction program blank m' j _ next (List.getElem?_eq_getElem nextInside) nextPosition⟩

-- The two runs step in lockstep, and the reference machine never leaves the program.
theorem loop_lockstep (named : text.length = program.code.length) (blank : Memory) (board : Board)
    (opening : OpenEnv) (opens : Opens opening) (succeeds : ∀ k, Succeeds (envs k)) (k : Nat) :
    Matches (system program text blank board opening envs k) (reference program blank envs k) ∧
      ∀ m, reference program blank envs k = .running m →
        AtInstruction program (storeMachineCode blank memSize program.code) m := by
  apply Progress.iterate_related
  · exact run_start_ready program blank board opening opens
  · intro m same
    cases same
    exact start_at_instruction program _
  · intro j m m' inv ran
    exact at_instruction_step program _ _ m m' inv ran
  · intro j st m ready inv
    obtain ⟨i, inside, position⟩ := inv.position
    exact (pass_at_instruction program text blank (envs j) st m i _ _ (succeeds j) ready inv
      (List.getElem?_eq_getElem inside) position (List.getElem?_eq_getElem (named ▸ inside))).1

-- While the reference machine runs, the client holds the instruction that the pc
-- stands on and prints its line, unless the driver rejects it.
theorem run_refines_isa (named : text.length = program.code.length) (blank : Memory) (board : Board)
    (opening : OpenEnv) (opens : Opens opening) (succeeds : ∀ k, Succeeds (envs k)) (k : Nat) :
    Matches (system program text blank board opening envs k) (reference program blank envs k) ∧
      ∀ m, reference program blank envs k = .running m →
        ∃ st i raw line, system program text blank board opening envs k = .running st ∧
          view st.ctx.cpu st.memory = m ∧ i < program.code.length ∧ st.ctx.cpu.pc.toNat = instrSize * i ∧
          program.code[i]? = some raw ∧ st.writeBuf.instruction = raw ∧ st.writeBuf.isInstruction = 1 ∧
          text[i]? = some line ∧
          ((∀ m', reference program blank envs (k + 1) ≠ .stopped (.rejected m')) →
            Announces st.stdout line (system program text blank board opening envs (k + 1))) := by
  obtain ⟨matched, reached⟩ := loop_lockstep program text envs named blank board opening opens succeeds k
  refine ⟨matched, ?_⟩
  intro m current
  have inv := reached m current
  obtain ⟨i, inside, position⟩ := inv.position
  have access := List.getElem?_eq_getElem inside
  have label := List.getElem?_eq_getElem (named ▸ inside)
  rw [current] at matched
  obtain ⟨st, running, ready⟩ := Progress.related_running _ _ _ _ matched
  have pc : st.ctx.cpu.pc = m.pc := congrArg Machine.pc ready.agrees
  have held := fetch_at_instruction program blank m i _ inv access position
  refine ⟨st, i, _, _, running, ready.agrees, inside, by rw [pc, position, Nat.mul_comm], access,
    Option.some.inj (ready.fetched.symm.trans held), ready.isInstruction, label, ?_⟩
  have nextReference : reference program blank envs (k + 1) = _ :=
    Progress.iterate_from_running _ _ k m current
  have nextSystem : system program text blank board opening envs (k + 1) = _ :=
    Progress.iterate_from_running _ _ k st running
  rw [nextReference, nextSystem]
  exact (pass_at_instruction program text blank (envs k) st m i _ _ (succeeds k) ready inv access position label).2

end Runs

-- MOV R1, [0x1000]; MOV [0x1008], R1; HALT
def copyProgram : Program where
  code := [⟨0x1000, 1, Opcode.mov.code, Mode.directLoad.code⟩,
    ⟨0x1008, 1, Opcode.mov.code, Mode.directStore.code⟩, haltInstr]
  halts := rfl
  fits := by decide
  branches := by decide
  registers := by simp only [NamesRegister]; decide
  stores := by decide

def darkBoard : Board := ⟨fun _ => false, false, 0, 0, 0⟩
def startedOpening : OpenEnv := ⟨1, 0, true, 3, 16⟩
def pressedEnv : IterEnv := ⟨false, ⟨0, 1, false⟩, false, 16, 16⟩

theorem run_refines_isa_copy :
    Matches (system copyProgram [['l'], ['s'], ['h']] (fun _ => 0) darkBoard startedOpening (fun _ => pressedEnv) 3)
      (reference copyProgram (fun _ => 0) (fun _ => pressedEnv) 3) := by
  have refined := run_refines_isa copyProgram [['l'], ['s'], ['h']] (fun _ => pressedEnv) rfl (fun _ => 0)
    darkBoard startedOpening ⟨by decide, rfl, by decide⟩ (fun _ => ⟨rfl, rfl, rfl, rfl, Or.inr rfl⟩) 3
  exact refined.1

end CpuEmulator.Userspace
