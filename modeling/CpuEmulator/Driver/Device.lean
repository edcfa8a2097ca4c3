import CpuEmulator.Driver.Execute

set_option autoImplicit false

namespace CpuEmulator.Driver

structure CpuContext where
  cpu : MyCpu
  pendingInstruction : Instruction

def freshContext : CpuContext where
  cpu := ⟨fun _ => 0, 0, 0, 0, 0, 0⟩
  pendingInstruction := ⟨0, 0, 0, 0⟩

-- The switches are sampled into the shared atomics before the allocation; a
-- negative pause value is only logged and stored all the same.
def cpuOpen (runSw pauseSw : Int) (kzalloc : Bool) (board : Board) : Board × Except Int CpuContext :=
  if runSw < 0 then (board, .error runSw)
  else
    let sampled := { board with cpuRunning := runSw, cpuPaused := pauseSw }
    if kzalloc then (sampled, .ok freshContext) else (sampled, .error (-enomem))

structure Reply where
  board : Board
  ctx : CpuContext
  ret : Int
  buf : Option ReadValue

-- copyFault is the outcome of copy_from_user. No reply at all (none) is a NULL
-- pointer dereference in the kernel.
def cpuWrite (board : Board) (ctx : CpuContext) (len : Nat) (copyFault : Bool) (wv : WriteValue) :
    Option Reply :=
  if len ≠ sizeofWriteValue then some ⟨board, ctx, -einval, none⟩
  else if copyFault then some ⟨board, ctx, -efault, none⟩
  else if wv.isInstruction ≠ 0 then
    some ⟨board, { ctx with pendingInstruction := wv.instruction }, len, none⟩
  else
    (getRegister (ctx.cpu.pendingRegIdx.setWidth 64)).map fun reg =>
      let cpu := ctx.cpu.setReg reg wv.val
      ⟨setDiodes cpu ctx.cpu board, { ctx with cpu := cpu }, len, none⟩

-- The outcomes of the kernel calls inside one cpu_read: wait is what
-- wait_event_interruptible returns and input what gpiod_get_value(input_dev) does.
structure ReadEnv where
  wait : Int
  input : Int
  copyFault : Bool

-- A step press that let the reader through is consumed; otherwise the reader
-- sleeps for one clock tick, which changes nothing here.
def consumeStep (board : Board) : Board :=
  if 0 < board.stepCount then { board with stepCount := board.stepCount - 1 } else board

-- The read_value built after execute_instruction. For a pending store the
-- register is looked up again by the index recorded in the cpu.
def readBuf (cpu : MyCpu) (execRes : Int) : Option ReadValue :=
  if execRes = execPendingMemRead then some ⟨cpu.pc, cpu.pendingMemAddr, 0, execRes⟩
  else if execRes = execPendingMemWrite then
    (getRegister (cpu.pendingRegIdx.setWidth 64)).map fun reg =>
      ⟨cpu.pc, cpu.pendingMemAddr, cpu.regs reg, execRes⟩
  else if execRes = execPendingMmioRead then
    some ⟨cpu.pc, 0, cpu.pendingMmioRead.setWidth 64, execRes⟩
  else some ⟨cpu.pc, 0, 0, execRes⟩

def cpuRead (env : ReadEnv) (board : Board) (ctx : CpuContext) (len : Nat) : Option Reply :=
  if len ≠ sizeofReadValue then some ⟨board, ctx, -einval, none⟩
  else if env.wait ≠ 0 then some ⟨board, ctx, -erestartsys, none⟩
  else
    let done := executeInstruction env.input ctx.cpu (consumeStep board) ctx.pendingInstruction
    let after := { ctx with cpu := done.cpu }
    if done.ret = -einval then some ⟨done.board, after, -einval, none⟩
    else
      (readBuf done.cpu done.ret).map fun buf =>
        if env.copyFault then ⟨done.board, after, -efault, none⟩
        else ⟨done.board, after, len, some buf⟩

end CpuEmulator.Driver
