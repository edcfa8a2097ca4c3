import CpuEmulator.Driver.Device

set_option autoImplicit false

namespace CpuEmulator.Driver

-- The increment of a 32-bit atomic_t.
def atomicInc (value : Int) : Int := if value = 2147483647 then -2147483648 else value + 1

def runIrqThread (runSw : Int) (board : Board) : Board :=
  if runSw ≠ 0 then { board with cpuRunning := 1 } else board

def pauseIrqThread (pauseSw : Int) (board : Board) : Board :=
  { board with cpuPaused := if pauseSw ≠ 0 then 1 else 0 }

-- step_irq_thread sleeps for 50 ms between its check and its increment.
def stepIrqCheck (board : Board) : Bool := board.cpuPaused != 0

def stepIrqIncrement (input : Int) (board : Board) : Board :=
  if input ≠ 0 then { board with stepCount := atomicInc board.stepCount } else board

structure Atomics where
  cpuRunning : Int
  cpuPaused : Int
  stepCount : Int

def Board.atomics (board : Board) : Atomics := ⟨board.cpuRunning, board.cpuPaused, board.stepCount⟩

-- The condition that cpu_read waits for on exec_wq.
def Atomics.gateOpen (atomics : Atomics) : Bool :=
  atomics.cpuRunning != 0 && (atomics.cpuPaused == 0 || decide (0 < atomics.stepCount))

def gateOpen (board : Board) : Bool := board.atomics.gateOpen

def Atomics.consumeStep (atomics : Atomics) : Atomics :=
  if 0 < atomics.stepCount then { atomics with stepCount := atomics.stepCount - 1 } else atomics

theorem consume_step_atomics (board : Board) : (consumeStep board).atomics = board.atomics.consumeStep := by
  by_cases pressed : 0 < board.stepCount
  · rw [consumeStep, if_pos pressed, Atomics.consumeStep, if_pos (show 0 < board.atomics.stepCount from pressed)]
    rfl
  · rw [consumeStep, if_neg pressed, Atomics.consumeStep, if_neg (show ¬ 0 < board.atomics.stepCount from pressed)]

def BoardFree (f : Board → Executed) : Prop :=
  ∃ cpu ret, ∀ board, (f board).cpu = cpu ∧ (f board).ret = ret ∧ (f board).board.atomics = board.atomics

theorem leave_free (prev cpu : MyCpu) (ret : Int) : BoardFree (fun board => leave prev cpu board ret) :=
  ⟨cpu, ret, fun _ => ⟨rfl, rfl, rfl⟩⟩

theorem finish_free (prev cpu : MyCpu) : BoardFree (fun board => finish prev cpu board) :=
  ⟨_, execSuccess, fun _ => ⟨rfl, rfl, rfl⟩⟩

section Execution

variable (input : Int) (cpu : MyCpu) (instr : Instruction)

theorem two_operands_free (immediate : Fin 4 → MyCpu) (register : Fin 4 → Fin 4 → MyCpu) :
    BoardFree (fun board => twoOperands immediate register cpu board instr) := by
  simp only [twoOperands]
  split
  · split
    · exact leave_free cpu cpu _
    · exact finish_free cpu _
  · split
    · exact finish_free cpu _
    · exact leave_free cpu cpu _
  · exact leave_free cpu cpu _

theorem not_free : BoardFree (fun board => execNot cpu board instr) := by
  simp only [execNot]
  split
  · exact leave_free cpu cpu _
  · split
    · exact leave_free cpu cpu _
    · exact finish_free cpu _

theorem branch_free (taken : Bool) : BoardFree (fun board => branch taken cpu board instr) := by
  cases taken with
  | true => exact leave_free cpu _ _
  | false => exact finish_free cpu cpu

theorem direct_load_free : BoardFree (fun board => directLoad input cpu board instr) := by
  simp only [directLoad]
  split
  · split
    · split
      · exact leave_free cpu cpu _
      · split
        · exact leave_free cpu _ _
        · exact ⟨_, _, fun _ => ⟨rfl, rfl, rfl⟩⟩
    · exact leave_free cpu cpu _
  · exact leave_free cpu _ _

theorem direct_store_free : BoardFree (fun board => directStore cpu board instr) := by
  simp only [directStore]
  split
  · split
    · exact leave_free cpu cpu _
    · split
      · split
        · exact leave_free cpu cpu _
        · split
          · exact ⟨_, _, fun _ => ⟨rfl, rfl, rfl⟩⟩
          · split
            · exact ⟨_, _, fun _ => ⟨rfl, rfl, rfl⟩⟩
            · exact leave_free cpu cpu _
      · exact leave_free cpu cpu _
  · exact leave_free cpu _ _

theorem execute_free : BoardFree (fun board => executeInstruction input cpu board instr) := by
  simp only [executeInstruction]
  cases opcodeOf instr.opcode with
  | none => exact leave_free cpu cpu _
  | some op =>
      cases op with
      | add | sub | and | or | cmp => exact two_operands_free cpu instr _ _
      | not => exact not_free cpu instr
      | jmp | je | jg | jl => exact branch_free cpu instr _
      | mov =>
          change BoardFree (fun board => execMov input cpu board instr)
          simp only [execMov]
          split
          · exact direct_load_free input cpu instr
          · exact direct_store_free cpu instr
          · exact two_operands_free cpu instr _ _

end Execution

abbrev Answer := CpuContext × Int × Option ReadValue

def Reply.visible (reply : Reply) : Atomics × Answer := (reply.board.atomics, reply.ctx, reply.ret, reply.buf)

section Calls

variable (ctx : CpuContext) (len : Nat)

theorem write_answers (copyFault : Bool) (wv : WriteValue) :
    ∃ answer : Option Answer, ∀ board,
      (cpuWrite board ctx len copyFault wv).map Reply.visible = answer.map (fun seen => (board.atomics, seen)) := by
  simp only [cpuWrite]
  split
  · exact ⟨some (ctx, -einval, none), fun _ => rfl⟩
  · split
    · exact ⟨some (ctx, -efault, none), fun _ => rfl⟩
    · split
      · exact ⟨some ({ ctx with pendingInstruction := wv.instruction }, len, none), fun _ => rfl⟩
      · cases getRegister (ctx.cpu.pendingRegIdx.setWidth 64) with
        | none => exact ⟨none, fun _ => rfl⟩
        | some reg => exact ⟨some ({ ctx with cpu := ctx.cpu.setReg reg wv.val }, len, none), fun _ => rfl⟩

def Executes (len : Nat) (env : ReadEnv) : Prop := len = sizeofReadValue ∧ env.wait = 0

instance (env : ReadEnv) : Decidable (Executes len env) := inferInstanceAs (Decidable (_ ∧ _))

theorem read_answers (env : ReadEnv) :
    ∃ answer : Option Answer, ∀ board, (cpuRead env board ctx len).map Reply.visible =
      answer.map (fun seen => (if Executes len env then board.atomics.consumeStep else board.atomics, seen)) := by
  by_cases executes : Executes len env
  · obtain ⟨cpu, ret, free⟩ := execute_free env.input ctx.cpu ctx.pendingInstruction
    have atomics (board : Board) (seen : Answer) :
        some ((executeInstruction env.input ctx.cpu (consumeStep board) ctx.pendingInstruction).board.atomics, seen) =
          some (board.atomics.consumeStep, seen) := by
      rw [(free (consumeStep board)).2.2, consume_step_atomics]
    simp only [if_pos executes]
    obtain ⟨size, woken⟩ := executes
    simp only [cpuRead, size, woken, ne_eq, not_true, if_false, (free _).1, (free _).2.1]
    split
    · exact ⟨some ({ ctx with cpu := cpu }, -einval, none), fun board => atomics board _⟩
    · cases readBuf cpu ret with
      | none => exact ⟨none, fun _ => rfl⟩
      | some buf =>
          cases env.copyFault with
          | true => exact ⟨some ({ ctx with cpu := cpu }, -efault, none), fun board => atomics board _⟩
          | false => exact ⟨some ({ ctx with cpu := cpu }, sizeofReadValue, some buf), fun board => atomics board _⟩
  · simp only [if_neg executes, cpuRead]
    split
    · exact ⟨some (ctx, -einval, none), fun _ => rfl⟩
    · rename_i right
      have size := not_not.mp right
      split
      · exact ⟨some (ctx, -erestartsys, none), fun _ => rfl⟩
      · rename_i woken
        exact absurd ⟨size, not_not.mp woken⟩ executes

theorem write_visible (board other : Board) (copyFault : Bool) (wv : WriteValue) (same : board.atomics = other.atomics) :
    (cpuWrite board ctx len copyFault wv).map Reply.visible = (cpuWrite other ctx len copyFault wv).map Reply.visible := by
  obtain ⟨answer, answers⟩ := write_answers ctx len copyFault wv
  rw [answers, answers, same]

theorem read_visible (env : ReadEnv) (board other : Board) (same : board.atomics = other.atomics) :
    (cpuRead env board ctx len).map Reply.visible = (cpuRead env other ctx len).map Reply.visible := by
  obtain ⟨answer, answers⟩ := read_answers ctx len env
  rw [answers, answers, same]

theorem answered_atomics (result : Option Reply) (answer : Option Answer) (atomics : Atomics) (reply : Reply)
    (answers : result.map Reply.visible = answer.map (fun seen => (atomics, seen))) (ran : result = some reply) :
    reply.board.atomics = atomics := by
  rw [ran, Option.map_some] at answers
  obtain ⟨_, _, pair⟩ := Option.map_eq_some_iff.mp answers.symm
  exact (congrArg Prod.fst pair).symm

theorem write_reply_atomics (board : Board) (copyFault : Bool) (wv : WriteValue) (reply : Reply)
    (ran : cpuWrite board ctx len copyFault wv = some reply) : reply.board.atomics = board.atomics := by
  obtain ⟨answer, answers⟩ := write_answers ctx len copyFault wv
  exact answered_atomics _ answer _ reply (answers board) ran

theorem read_reply_atomics (env : ReadEnv) (board : Board) (reply : Reply) (ran : cpuRead env board ctx len = some reply) :
    reply.board.atomics = if Executes len env then board.atomics.consumeStep else board.atomics := by
  obtain ⟨answer, answers⟩ := read_answers ctx len env
  exact answered_atomics _ answer _ reply (answers board) ran

end Calls

end CpuEmulator.Driver
