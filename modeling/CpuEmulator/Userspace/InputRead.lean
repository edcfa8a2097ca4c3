import CpuEmulator.Userspace.ProgramRefinement

set_option autoImplicit false

namespace CpuEmulator.Userspace

open Driver

structure ReadsInput (instr : Instruction) (reg : Fin 4) : Prop where
  opcode : opcodeOf instr.opcode = some .mov
  mode : modeOf instr.mode = some .directLoad
  address : instr.operand2 = mmioInput
  named : getRegister (instr.operand1.setWidth 64) = some reg

-- What gpiod_get_value can return: the level of the line or an error number.
def Sampled (value : Int) : Prop := InputBit value ∨ value < 0

def inputRead (value : Int) (board : Board) (ctx : CpuContext) : Option Reply :=
  cpuRead ⟨0, value, false⟩ board ctx sizeofReadValue

structure Delivered (bits : U64) (ctx : CpuContext) (reg : Fin 4) (reply : Reply) : Prop where
  regs : reply.ctx.cpu.regs = Function.update ctx.cpu.regs reg bits
  pc : reply.ctx.cpu.pc = ctx.cpu.next
  ret : reply.ret = sizeofReadValue
  seen : reply.buf = some ⟨ctx.cpu.next, 0, bits, execPendingMmioRead⟩

def executedCodes : List Int := [execSuccess, execHalt, execPendingMemRead, execPendingMemWrite, execPendingMmioRead]

structure Refused (ctx : CpuContext) (reply : Reply) : Prop where
  regs : reply.ctx.cpu.regs = ctx.cpu.regs
  pc : reply.ctx.cpu.pc = ctx.cpu.pc
  seen : reply.ret < 0 ∨ ∃ buf, reply.buf = some buf ∧ buf.execReturn ∉ executedCodes

structure InputChecked (value : Int) (ctx : CpuContext) (reg : Fin 4) (reply : Reply) : Prop where
  level : 0 ≤ value → Delivered (BitVec.ofInt 64 value) ctx reg reply
  error : value < 0 → Refused ctx reply

section Read

variable (value : Int) (board : Board) (ctx : CpuContext) (reg : Fin 4)

theorem input_executed (cpu : MyCpu) (instr : Instruction) (reads : ReadsInput instr reg) :
    ∃ lit, executeInstruction value cpu board instr =
      ⟨{ cpu with
          regs := Function.update cpu.regs reg ((BitVec.ofInt 8 value).setWidth 64)
          pendingMmioRead := BitVec.ofInt 8 value
          pc := cpu.next }, lit, execPendingMmioRead⟩ := by
  have mmio : isMmio instr.operand2 = true := by
    rw [reads.address]
    rfl
  have input : isMmioInput instr.operand2 = true := decide_eq_true reads.address
  simp only [executeInstruction, reads.opcode, execMov, reads.mode, directLoad, mmio, input, reads.named, if_true]
  -- A byte is never below zero, whatever the sign of the value it came from.
  rw [if_neg (Int.not_lt.mpr (Int.natCast_nonneg _))]
  exact ⟨_, rfl⟩

theorem input_delivered (reads : ReadsInput ctx.pendingInstruction reg) :
    ∃ reply, inputRead value board ctx = some reply ∧ Delivered ((BitVec.ofInt 8 value).setWidth 64) ctx reg reply := by
  obtain ⟨lit, executed⟩ := input_executed value (consumeStep board) reg ctx.cpu ctx.pendingInstruction reads
  have accepted : execPendingMmioRead ≠ -einval := by decide
  simp only [inputRead, cpuRead, executed, ne_eq, not_true, if_false, if_neg accepted]
  exact ⟨_, rfl, rfl, rfl, rfl, rfl⟩

theorem delivered_not_refused (bits : U64) (reply : Reply) (delivered : Delivered bits ctx reg reply) : ¬ Refused ctx reply := by
  intro refused
  cases refused.seen with
  | inl failed =>
      rw [delivered.ret] at failed
      exact absurd failed (by decide)
  | inr shown =>
      obtain ⟨buf, seen, code⟩ := shown
      rw [delivered.seen] at seen
      rw [← Option.some.inj seen] at code
      exact code (show execPendingMmioRead ∈ executedCodes by decide)

-- The error number is taken for data: the field it goes through is unsigned.
theorem input_checked_iff (reads : ReadsInput ctx.pendingInstruction reg) (sampled : Sampled value) :
    (∃ reply, inputRead value board ctx = some reply ∧ InputChecked value ctx reg reply) ↔ 0 ≤ value := by
  obtain ⟨answer, read, delivered⟩ := input_delivered value board ctx reg reads
  constructor
  · rintro ⟨reply, same, checked⟩
    rw [read] at same
    rw [← Option.some.inj same] at checked
    by_contra negative
    exact delivered_not_refused ctx reg _ answer delivered (checked.error (Int.not_le.mp negative))
  · intro level
    refine ⟨answer, read, fun _ => ?_, fun error => absurd level (Int.not_le.mpr error)⟩
    cases sampled with
    | inl bit =>
        rw [← input_bit_kept value bit]
        exact delivered
    | inr error => exact absurd level (Int.not_le.mpr error)

end Read

def readInput : Instruction := ⟨mmioInput, 0, Opcode.mov.code, Mode.directLoad.code⟩

theorem input_checked_iff_pressed : ∃ reply,
    inputRead 1 loadedBoard ⟨freshContext.cpu, readInput⟩ = some reply ∧ InputChecked 1 ⟨freshContext.cpu, readInput⟩ 0 reply :=
  (input_checked_iff 1 loadedBoard ⟨freshContext.cpu, readInput⟩ 0 ⟨rfl, rfl, rfl, rfl⟩ (Or.inl (Or.inr rfl))).mpr (by decide)

def failedSample : IterEnv := ⟨false, ⟨0, -5, false⟩, false, 16, 16⟩

-- With -5, an input/output error, R0 becomes 251, and the client reports a
-- button that is not pressed and goes on.
theorem input_error_taken_for_data :
    ¬ (∀ (value : Int) (board : Board) (ctx : CpuContext) (reg : Fin 4), ReadsInput ctx.pendingInstruction reg → Sampled value →
        ∃ reply, inputRead value board ctx = some reply ∧ InputChecked value ctx reg reply) ∧
      (inputRead (-5) loadedBoard ⟨freshContext.cpu, readInput⟩).map (fun reply => (reply.ctx.cpu.regs 0, reply.ctx.cpu.pc, reply.buf)) =
        some (251, 11, some ⟨11, 0, 251, execPendingMmioRead⟩) ∧
      ∃ st, runLoop [['i']] 1 (fun _ => failedSample) (runStart startedOpening darkBoard (encodedByte readInput)) 1 = .running st ∧
        st.stdout = [.executed ['i'], .inputButton false] := by
  refine ⟨fun claimed => ?_, rfl, ⟨_, rfl, rfl⟩⟩
  obtain ⟨reply, read, checked⟩ := claimed (-5) loadedBoard ⟨freshContext.cpu, readInput⟩ 0 ⟨rfl, rfl, rfl, rfl⟩
    (Or.inr (by decide))
  obtain ⟨answer, same, delivered⟩ := input_delivered (-5) loadedBoard ⟨freshContext.cpu, readInput⟩ 0 ⟨rfl, rfl, rfl, rfl⟩
  rw [read] at same
  rw [← Option.some.inj same] at delivered
  exact delivered_not_refused _ 0 _ reply delivered (checked.error (by decide))

end CpuEmulator.Userspace
