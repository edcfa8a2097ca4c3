import CpuEmulator.Userspace.InstructionStep

set_option autoImplicit false

namespace CpuEmulator.Userspace

open Library Driver Isa

-- Every system call of one pass succeeds and the input line delivers a bit.
structure Succeeds (env : IterEnv) : Prop where
  sent : env.writeFault = false
  woken : env.read.wait = 0
  copied : env.read.copyFault = false
  answered : env.dataFault = false
  bit : InputBit env.read.input

structure Ready (st : RunState) (m : Machine) : Prop where
  agrees : view st.ctx.cpu st.memory = m
  position : st.readBuf.pc = m.pc
  isInstruction : st.writeBuf.isInstruction = 1
  fetched : fetchNext m.memory m.pc = some st.writeBuf.instruction

inductive Ended : LoopEnd → Stop → Prop where
  | halted (st : RunState) : Ended (.exit 0 st) (.halted (view st.ctx.cpu st.memory))
  | rejected (st : RunState) : Ended (.exit 0 st) (.rejected (view st.ctx.cpu st.memory))

abbrev Matches : LoopStep → Outcome → Prop := Progress.Related Ready Ended

def stdoutOf : LoopStep → List Message
  | .running st => st.stdout
  | .stopped (.exit _ st) => st.stdout
  | .stopped .fault => []

def Announces (before : List Message) (line : List Char) (after : LoopStep) : Prop :=
  ∃ extra, stdoutOf after = before ++ .executed line :: extra

theorem instruction_written (board : Board) (ctx : CpuContext) (wv : WriteValue) (mode : wv.isInstruction = 1) :
    cpuWrite board ctx sizeofWriteValue false wv =
      some ⟨board, { ctx with pendingInstruction := wv.instruction }, sizeofWriteValue, none⟩ := by
  simp [cpuWrite, mode]

theorem data_written (board : Board) (ctx : CpuContext) (wv : WriteValue) (reg : Fin 4)
    (mode : wv.isInstruction = 0) (named : getRegister (ctx.cpu.pendingRegIdx.setWidth 64) = some reg) :
    cpuWrite board ctx sizeofWriteValue false wv =
      some ⟨setDiodes (ctx.cpu.setReg reg wv.val) ctx.cpu board,
        { ctx with cpu := ctx.cpu.setReg reg wv.val }, sizeofWriteValue, none⟩ := by
  simp [cpuWrite, mode, named]

section Pass

variable (text : List (List Char)) (count : Int) (env : IterEnv) (st : RunState)

def passExecuted : Executed :=
  executeInstruction env.read.input st.ctx.cpu (consumeStep st.board) st.writeBuf.instruction

def passReplied (buf : ReadValue) : RunState :=
  { st with
    board := (passExecuted env st).board
    ctx := ⟨(passExecuted env st).cpu, st.writeBuf.instruction⟩
    readBuf := buf }

inductive PassRead : Option Reply → Prop where
  | slept (asleep : env.read.wait ≠ 0) :
      PassRead (some ⟨st.board, ⟨st.ctx.cpu, st.writeBuf.instruction⟩, -erestartsys, none⟩)
  | rejected (woken : env.read.wait = 0) (code : (passExecuted env st).ret = -einval) :
      PassRead (some ⟨(passExecuted env st).board, ⟨(passExecuted env st).cpu, st.writeBuf.instruction⟩, -einval, none⟩)
  | unanswered (reply : readBuf (passExecuted env st).cpu (passExecuted env st).ret = none) : PassRead none
  | lost (woken : env.read.wait = 0) (accepted : (passExecuted env st).ret ≠ -einval) (uncopied : env.read.copyFault = true) :
      PassRead (some ⟨(passExecuted env st).board, ⟨(passExecuted env st).cpu, st.writeBuf.instruction⟩, -efault, none⟩)
  | replied (buf : ReadValue) (woken : env.read.wait = 0) (accepted : (passExecuted env st).ret ≠ -einval)
      (copied : env.read.copyFault = false)
      (reply : readBuf (passExecuted env st).cpu (passExecuted env st).ret = some buf) :
      PassRead (some ⟨(passExecuted env st).board, ⟨(passExecuted env st).cpu, st.writeBuf.instruction⟩, sizeofReadValue, some buf⟩)

theorem pass_read : PassRead env st
    (cpuRead env.read st.board { st.ctx with pendingInstruction := st.writeBuf.instruction } sizeofReadValue) := by
  simp only [cpuRead, ne_eq, not_true, if_false]
  rw [← passExecuted]
  by_cases woken : env.read.wait = 0
  · rw [if_neg (not_not_intro woken)]
    by_cases rejected : (passExecuted env st).ret = -einval
    · rw [if_pos rejected]
      exact .rejected woken rejected
    · rw [if_neg rejected]
      cases reply : readBuf (passExecuted env st).cpu (passExecuted env st).ret with
      | none => exact .unanswered reply
      | some buf =>
          cases copied : env.read.copyFault with
          | true => exact .lost woken rejected copied
          | false => exact .replied buf woken rejected copied reply
  · rw [if_pos woken]
    exact .slept woken

theorem pass_rejected (ok : Succeeds env) (mode : st.writeBuf.isInstruction = 1)
    (code : (passExecuted env st).ret = -einval) :
    runIteration text count env st =
      .stopped (.exit 0 (print (.checkKernelLogs einval) (passReplied env st st.readBuf))) := by
  have read : cpuRead env.read st.board { st.ctx with pendingInstruction := st.writeBuf.instruction }
      sizeofReadValue = some ⟨(passExecuted env st).board,
        ⟨(passExecuted env st).cpu, st.writeBuf.instruction⟩, -einval, none⟩ := by
    simp only [passExecuted] at code ⊢
    simp [cpuRead, ok.woken, code]
  simp only [runIteration]
  simp only [ok.sent, instruction_written _ _ _ mode, read]
  rfl

theorem pass_replied (ok : Succeeds env) (mode : st.writeBuf.isInstruction = 1) (buf : ReadValue)
    (code : (passExecuted env st).ret ≠ -einval)
    (reply : readBuf (passExecuted env st).cpu (passExecuted env st).ret = some buf) :
    runIteration text count env st =
      afterRead text count env (instructionIndex st.readBuf.pc) (passReplied env st buf) := by
  have read : cpuRead env.read st.board { st.ctx with pendingInstruction := st.writeBuf.instruction }
      sizeofReadValue = some ⟨(passExecuted env st).board,
        ⟨(passExecuted env st).cpu, st.writeBuf.instruction⟩, sizeofReadValue, some buf⟩ := by
    simp only [passExecuted] at code reply ⊢
    simp [cpuRead, ok.woken, ok.copied, code, reply]
  simp only [runIteration]
  simp only [ok.sent, instruction_written _ _ _ mode, read]
  rfl

theorem after_read_within (line : List Char) (i : Int) (within : i < count) (named : textAt text i = some line) :
    afterRead text count env i st = (serve env (print (.executed line) st)).bind (refetch env) := by
  rw [afterRead, if_neg (Int.not_le.mpr within), named]

end Pass

theorem plain_address_in_memory (addr : U64) (plain : addr < dataLimit) : addr.toNat + 7 < memSize := by
  have bound : addr.toNat < 65520 := BitVec.lt_def.mp plain
  simp only [memSize]
  omega

theorem instruction_index_in_memory (pc : U64) (inside : pc.toNat + 10 < memSize) :
    instructionIndex pc = (pc.toNat / instrSize : Nat) := by
  simp only [memSize] at inside
  have quotient : (pc / BitVec.ofNat 64 instrSize).toNat = pc.toNat / instrSize := by
    rw [BitVec.toNat_udiv]
    rfl
  have small : pc.toNat / instrSize < 65536 := by
    simp only [instrSize]
    omega
  have narrow : ((pc / BitVec.ofNat 64 instrSize).setWidth 32).toNat = pc.toNat / instrSize := by
    rw [BitVec.toNat_setWidth, quotient]
    omega
  rw [instructionIndex, BitVec.toInt_eq_toNat_of_lt (by omega), narrow]

structure Served (st after : RunState) (m : Machine) : Prop where
  agrees : view after.ctx.cpu after.memory = m
  position : after.readBuf.pc = m.pc
  isInstruction : after.writeBuf.isInstruction = 1
  prints : ∃ extra, after.stdout = st.stdout ++ extra

theorem serve_success (env : IterEnv) (st : RunState) (code : st.readBuf.execReturn = execSuccess) :
    serve env st = .running st := by
  rw [serve, code]
  rfl

theorem serve_halt (env : IterEnv) (st : RunState) (code : st.readBuf.execReturn = execHalt) :
    serve env st = .stopped (.exit 0 st) := by
  rw [serve, code]
  rfl

theorem serve_mmio_read (env : IterEnv) (st : RunState) (code : st.readBuf.execReturn = execPendingMmioRead) :
    serve env st = .running (print (.inputButton (st.readBuf.val == 1)) st) := by
  rw [serve, code]
  rfl

theorem serve_mem_read (env : IterEnv) (st : RunState) (reg : Fin 4) (answered : env.dataFault = false)
    (code : st.readBuf.execReturn = execPendingMemRead)
    (named : getRegister (st.ctx.cpu.pendingRegIdx.setWidth 64) = some reg)
    (plain : st.readBuf.memAddr < dataLimit) :
    ∃ after, serve env st = .running after ∧ after.memory = st.memory ∧ after.readBuf = st.readBuf ∧
      after.ctx.cpu = st.ctx.cpu.setReg reg
        (leWord 64 (fun i => st.memory (st.readBuf.memAddr.toNat + i)) 8) ∧
      after.writeBuf.isInstruction = 1 ∧ after.stdout = st.stdout := by
  rw [serve, code]
  simp only [readFromMemory, if_pos (plain_address_in_memory _ plain), answered]
  rw [data_written _ _ _ reg rfl named]
  exact ⟨_, rfl, by simp⟩

theorem serve_mem_write (env : IterEnv) (st : RunState) (code : st.readBuf.execReturn = execPendingMemWrite)
    (plain : st.readBuf.memAddr < dataLimit) :
    ∃ after, serve env st = .running after ∧
      after.memory = writeCells st.memory st.readBuf.memAddr.toNat (leByte st.readBuf.val) 8 ∧
      after.readBuf = st.readBuf ∧ after.ctx = st.ctx ∧ after.writeBuf = st.writeBuf ∧
      after.stdout = st.stdout := by
  rw [serve, code]
  simp only [writeToMemory, if_pos (plain_address_in_memory _ plain)]
  exact ⟨_, rfl, by simp⟩

theorem refetch_ready (env : IterEnv) (st after : RunState) (m : Machine) (instr : Instruction)
    (served : Served st after m) (fetched : fetchNext m.memory m.pc = some instr) :
    ∃ next, refetch env after = .running next ∧ Ready next m ∧ ∃ extra, next.stdout = st.stdout ++ extra := by
  have memory : after.memory = m.memory := congrArg Machine.memory served.agrees
  obtain ⟨served1, printed1⟩ := served.prints
  obtain ⟨extra, printed2⟩ := trace_fetch_stdout env.fetchTrace (holdNext instr after)
  refine ⟨traceFetch env.fetchTrace (holdNext instr after), ?_, ?_, served1 ++ extra, ?_⟩
  · rw [refetch, served.position, memory, fetched]
  · exact ⟨by simpa [holdNext] using served.agrees, by simpa [holdNext] using served.position,
      by simpa [holdNext] using served.isInstruction, by simpa [holdNext, memory] using fetched⟩
  · rw [printed2, holdNext, printed1, List.append_assoc]

section Pass

variable (text : List (List Char)) (count : Int) (env : IterEnv) (st : RunState) (line : List Char)

theorem pass_running (ok : Succeeds env) (mode : st.writeBuf.isInstruction = 1) (buf : ReadValue)
    (after : RunState) (m : Machine) (instr : Instruction)
    (code : (passExecuted env st).ret ≠ -einval)
    (reply : readBuf (passExecuted env st).cpu (passExecuted env st).ret = some buf)
    (within : instructionIndex st.readBuf.pc < count)
    (named : textAt text (instructionIndex st.readBuf.pc) = some line)
    (serving : serve env (print (.executed line) (passReplied env st buf)) = .running after)
    (served : Served (print (.executed line) (passReplied env st buf)) after m)
    (fetched : fetchNext m.memory m.pc = some instr) :
    Matches (runIteration text count env st) (.running m) ∧
      Announces st.stdout line (runIteration text count env st) := by
  obtain ⟨next, refetched, ready, extra, printed⟩ := refetch_ready env _ after m instr served fetched
  have passed : runIteration text count env st = .running next := by
    rw [pass_replied text count env st ok mode buf code reply,
      after_read_within text count env _ line _ within named, serving]
    exact refetched
  rw [passed]
  refine ⟨.running ready, extra, ?_⟩
  rw [stdoutOf, printed]
  simp [passReplied]

theorem pass_settles (ok : Succeeds env) (mode : st.writeBuf.isInstruction = 1) (out : Outcome)
    (settled : Settles st.memory (passExecuted env st) out)
    (within : instructionIndex st.readBuf.pc < count)
    (named : textAt text (instructionIndex st.readBuf.pc) = some line)
    (fetched : ∀ m, out = .running m → ∃ instr, fetchNext m.memory m.pc = some instr) :
    Matches (runIteration text count env st) out ∧
      ((∀ m, out ≠ .stopped (.rejected m)) → Announces st.stdout line (runIteration text count env st)) := by
  have running := pass_running text count env st line ok mode
  cases settled with
  | rejected code =>
      rw [pass_rejected text count env st ok mode code]
      exact ⟨.stopped (.rejected _), fun accepted => absurd rfl (accepted _)⟩
  | success code =>
      obtain ⟨instr, access⟩ := fetched _ rfl
      have reply : readBuf (passExecuted env st).cpu (passExecuted env st).ret =
          some ⟨(passExecuted env st).cpu.pc, 0, 0, execSuccess⟩ := by rw [code]; rfl
      have passed := running _ _ _ instr (by rw [code]; decide) reply within named
        (serve_success _ _ rfl) ⟨by simp [passReplied], by simp [passReplied, view], by simpa [passReplied] using mode,
          [], by simp⟩ access
      exact ⟨passed.1, fun _ => passed.2⟩
  | halted code =>
      have reply : readBuf (passExecuted env st).cpu (passExecuted env st).ret =
          some ⟨(passExecuted env st).cpu.pc, 0, 0, execHalt⟩ := by rw [code]; rfl
      rw [pass_replied text count env st ok mode _ (by rw [code]; decide) reply,
        after_read_within text count env _ line _ within named, serve_halt _ _ rfl]
      exact ⟨.stopped (.halted _), fun _ => ⟨[], rfl⟩⟩
  | mmioRead code =>
      obtain ⟨instr, access⟩ := fetched _ rfl
      have reply : readBuf (passExecuted env st).cpu (passExecuted env st).ret =
          some ⟨(passExecuted env st).cpu.pc, 0, (passExecuted env st).cpu.pendingMmioRead.setWidth 64,
            execPendingMmioRead⟩ := by rw [code]; rfl
      have passed := running _ _ _ instr (by rw [code]; decide) reply within named
        (serve_mmio_read _ _ rfl) ⟨by simp [passReplied], by simp [passReplied, view], by simpa [passReplied] using mode,
          _, rfl⟩ access
      exact ⟨passed.1, fun _ => passed.2⟩
  | memRead reg code pending plain =>
      obtain ⟨instr, access⟩ := fetched _ rfl
      have reply : readBuf (passExecuted env st).cpu (passExecuted env st).ret =
          some ⟨(passExecuted env st).cpu.pc, (passExecuted env st).cpu.pendingMemAddr, 0, execPendingMemRead⟩ := by
        rw [code]; rfl
      obtain ⟨after, serving, memory, buf, cpu, instruction, printed⟩ := serve_mem_read env
        (print (.executed line) (passReplied env st ⟨(passExecuted env st).cpu.pc,
          (passExecuted env st).cpu.pendingMemAddr, 0, execPendingMemRead⟩)) reg ok.answered rfl pending plain
      have passed := running _ after _ instr (by rw [code]; decide) reply within named serving
        ⟨by rw [memory, cpu]; rfl, by rw [buf]; rfl, instruction, [], by simp [printed]⟩ access
      exact ⟨passed.1, fun _ => passed.2⟩
  | memWrite reg code pending plain =>
      obtain ⟨instr, access⟩ := fetched _ rfl
      have reply : readBuf (passExecuted env st).cpu (passExecuted env st).ret =
          some ⟨(passExecuted env st).cpu.pc, (passExecuted env st).cpu.pendingMemAddr,
            (passExecuted env st).cpu.regs reg, execPendingMemWrite⟩ := by
        rw [code, readBuf, pending]; rfl
      obtain ⟨after, serving, memory, buf, ctx, writeBuf, printed⟩ := serve_mem_write env
        (print (.executed line) (passReplied env st ⟨(passExecuted env st).cpu.pc,
          (passExecuted env st).cpu.pendingMemAddr, (passExecuted env st).cpu.regs reg, execPendingMemWrite⟩))
        rfl plain
      have passed := running _ after _ instr (by rw [code]; decide) reply within named serving
        ⟨by rw [memory, ctx]; rfl, by rw [buf]; rfl, by rw [writeBuf]; exact mode, [], by simp [printed]⟩ access
      exact ⟨passed.1, fun _ => passed.2⟩

end Pass

end CpuEmulator.Userspace
