import CpuEmulator.Driver.Device
import CpuEmulator.Userspace.Memory
import CpuEmulator.Library.Progress

set_option autoImplicit false

namespace CpuEmulator.Userspace

open Library Driver

inductive Message where
  | checkKernelLogs (errno : Int)
  | deviceNotFound
  | countExceeded
  | executed (text : List Char)
  | inputButton (pressed : Bool)
  | invalidExecCode
deriving DecidableEq, Repr

-- The locals of run together with everything its system calls reach: the open
-- file of the cpu device, the memory array and the records accepted by the trace
-- collector.
structure RunState where
  board : Board
  ctx : CpuContext
  memory : Memory
  writeBuf : WriteValue
  readBuf : ReadValue
  access : MemAccess
  trace : List MemAccess
  stdout : List Message

-- The loop is left by returning ret, or by undefined behaviour: an access past
-- the end of an array or a NULL pointer dereference in the driver.
inductive LoopEnd where
  | exit (ret : Int) (st : RunState)
  | fault

abbrev LoopStep := Progress RunState LoopEnd

-- The outcomes of the system calls of one pass through the loop. dataTrace and
-- fetchTrace are the values the two writes to the trace device return.
structure IterEnv where
  writeFault : Bool
  read : ReadEnv
  dataFault : Bool
  dataTrace : Int
  fetchTrace : Int

structure OpenEnv where
  runSw : Int
  pauseSw : Int
  kzalloc : Bool
  traceFd : Int
  firstTrace : Int

def print (message : Message) (st : RunState) : RunState :=
  { st with stdout := st.stdout ++ [message] }

-- write(fd_cache_sim, &access, sizeof(mem_access)) when it returns ret.
def traceAccess (ret : Int) (st : RunState) : RunState :=
  if 0 ≤ ret then { st with trace := st.trace ++ [st.access] } else st

def traceFetch (ret : Int) (st : RunState) : RunState :=
  let traced := traceAccess ret st
  if ret < 0 then print (.checkKernelLogs (-ret)) traced else traced

def runStart (opening : OpenEnv) (board : Board) (memory : Memory) : LoopStep :=
  let start : RunState :=
    { board, ctx := freshContext, memory, writeBuf := ⟨⟨0, 0, 0, 0⟩, 0, 0⟩, readBuf := ⟨0, 0, 0, 0⟩,
      access := ⟨0, 0⟩, trace := [], stdout := [] }
  match cpuOpen opening.runSw opening.pauseSw opening.kzalloc board with
  | (opened, .error _) => .stopped (.exit (-1) (print .deviceNotFound { start with board := opened }))
  | (opened, .ok ctx) =>
      if opening.traceFd < 0 then
        .stopped (.exit opening.traceFd (print .deviceNotFound { start with board := opened, ctx := ctx }))
      else
        match fetchNext memory 0 with
        | none => .stopped .fault
        | some instr =>
            .running (traceFetch opening.firstTrace
              { start with board := opened, ctx := ctx, writeBuf := ⟨instr, 0, 1⟩ })

-- The switch over read_buf.exec_return. The results of the data write and of
-- both trace writes are ignored.
def serve (env : IterEnv) (st : RunState) : LoopStep :=
  let code := st.readBuf.execReturn
  if code = execSuccess then .running st
  else if code = execHalt then .stopped (.exit 0 st)
  else if code = execPendingMemRead then
    match readFromMemory st.memory st.readBuf.memAddr with
    | none => .stopped .fault
    | some value =>
        let writeBuf := { st.writeBuf with isInstruction := 0, val := value }
        match cpuWrite st.board st.ctx sizeofWriteValue env.dataFault writeBuf with
        | none => .stopped .fault
        | some reply =>
            .running (traceAccess env.dataTrace
              { st with
                board := reply.board
                ctx := reply.ctx
                writeBuf := { writeBuf with isInstruction := 1 }
                access := ⟨st.readBuf.memAddr, 0⟩ })
  else if code = execPendingMemWrite then
    match writeToMemory st.memory st.readBuf.memAddr st.readBuf.val with
    | none => .stopped .fault
    | some memory =>
        .running (traceAccess env.dataTrace { st with memory := memory, access := ⟨st.readBuf.memAddr, 1⟩ })
  else if code = execPendingMmioRead then .running (print (.inputButton (st.readBuf.val == 1)) st)
  else .stopped (.exit (-1) (print .invalidExecCode st))

-- write_buf.instruction = fetch_next(read_buf.pc) and the access record of that fetch.
def holdNext (instr : Instruction) (st : RunState) : RunState :=
  { st with
    writeBuf := { st.writeBuf with instruction := instr }
    access := ⟨st.readBuf.pc, 0⟩ }

def refetch (env : IterEnv) (st : RunState) : LoopStep :=
  match fetchNext st.memory st.readBuf.pc with
  | none => .stopped .fault
  | some instr => .running (traceFetch env.fetchTrace (holdNext instr st))

-- The u64 quotient is converted to int.
def instructionIndex (pc : U64) : Int := ((pc / BitVec.ofNat 64 instrSize).setWidth 32).toInt

def textAt (text : List (List Char)) (i : Int) : Option (List Char) :=
  if i < 0 then none else text[i.toNat]?

def afterRead (text : List (List Char)) (count : Int) (env : IterEnv) (i : Int) (st : RunState) : LoopStep :=
  if count ≤ i then .stopped (.exit 0 (print .countExceeded st))
  else
    match textAt text i with
    | none => .stopped .fault
    | some line => (serve env (print (.executed line) st)).bind (refetch env)

def runIteration (text : List (List Char)) (count : Int) (env : IterEnv) (st : RunState) : LoopStep :=
  let i := instructionIndex st.readBuf.pc
  match cpuWrite st.board st.ctx sizeofWriteValue env.writeFault st.writeBuf with
  | none => .stopped .fault
  | some written =>
      let sent := { st with board := written.board, ctx := written.ctx }
      if written.ret < 0 then .stopped (.exit 0 (print (.checkKernelLogs (-written.ret)) sent))
      else
        match cpuRead env.read sent.board sent.ctx sizeofReadValue with
        | none => .stopped .fault
        | some got =>
            let executed := { sent with board := got.board, ctx := got.ctx }
            if got.ret < 0 then .stopped (.exit 0 (print (.checkKernelLogs (-got.ret)) executed))
            else afterRead text count env i { executed with readBuf := got.buf.getD executed.readBuf }

def runLoop (text : List (List Char)) (count : Int) (envs : Nat → IterEnv) (start : LoopStep) : Nat → LoopStep :=
  Progress.iterate (fun k => runIteration text count (envs k)) start

-- Printing and tracing touch nothing that the driver or the memory depends on.
@[simp] theorem print_frame (message : Message) (st : RunState) :
    (print message st).board = st.board ∧ (print message st).ctx = st.ctx ∧
      (print message st).memory = st.memory ∧ (print message st).readBuf = st.readBuf ∧
      (print message st).writeBuf = st.writeBuf ∧ (print message st).access = st.access ∧
      (print message st).trace = st.trace ∧ (print message st).stdout = st.stdout ++ [message] := by
  simp [print]

@[simp] theorem trace_access_frame (ret : Int) (st : RunState) :
    (traceAccess ret st).board = st.board ∧ (traceAccess ret st).ctx = st.ctx ∧
      (traceAccess ret st).memory = st.memory ∧ (traceAccess ret st).readBuf = st.readBuf ∧
      (traceAccess ret st).writeBuf = st.writeBuf ∧ (traceAccess ret st).stdout = st.stdout := by
  simp only [traceAccess]
  split <;> simp

@[simp] theorem trace_fetch_frame (ret : Int) (st : RunState) :
    (traceFetch ret st).board = st.board ∧ (traceFetch ret st).ctx = st.ctx ∧
      (traceFetch ret st).memory = st.memory ∧ (traceFetch ret st).readBuf = st.readBuf ∧
      (traceFetch ret st).writeBuf = st.writeBuf := by
  simp only [traceFetch]
  split <;> simp

theorem trace_fetch_stdout (ret : Int) (st : RunState) :
    ∃ extra, (traceFetch ret st).stdout = st.stdout ++ extra := by
  simp only [traceFetch]
  split
  · exact ⟨[.checkKernelLogs (-ret)], by simp⟩
  · exact ⟨[], by simp⟩

end CpuEmulator.Userspace
