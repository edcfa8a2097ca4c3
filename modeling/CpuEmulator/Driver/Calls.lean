import CpuEmulator.Driver.Effect
import CpuEmulator.Library.Events

set_option autoImplicit false

namespace CpuEmulator.Driver

open Library

-- What a client can do with its open file. Between its calls the interrupt
-- threads and the calls on other files may leave any shared state.
inductive Call where
  | write (len : Nat) (copyFault : Bool) (wv : WriteValue)
  | read (len : Nat) (env : ReadEnv)
  | elsewhere (board : Board)

structure File where
  board : Board
  ctx : CpuContext

def Reply.file (reply : Reply) : File := ⟨reply.board, reply.ctx⟩

def callStep (file : File) : Call → Option File
  | .write len copyFault wv => (cpuWrite file.board file.ctx len copyFault wv).map Reply.file
  | .read len env => (cpuRead env file.board file.ctx len).map Reply.file
  | .elsewhere board => some { file with board := board }

def executed (file : File) : Call → Option Instruction
  | .read len env => if len = sizeofReadValue ∧ env.wait = 0 then some file.ctx.pendingInstruction else none
  | .write _ _ _ | .elsewhere _ => none

def NamesRegisters (file : File) (call : Call) : Prop :=
  ∀ instr, executed file call = some instr → PlainDirect instr → instr.operand1.toNat < 4

def pendingRegister (ctx : CpuContext) : Option (Fin 4) := getRegister (ctx.cpu.pendingRegIdx.setWidth 64)

def PendingNamed (file : File) : Prop := (pendingRegister file.ctx).isSome

theorem get_register_is_some (reg : U64) : (getRegister reg).isSome ↔ reg.toNat < 4 := by
  simp only [getRegister]
  split <;> (simp_all; try omega)

theorem get_register_byte (operand : U8) : (getRegister (operand.setWidth 64)).isSome ↔ operand.toNat < 4 := by
  rw [get_register_is_some, BitVec.toNat_setWidth, Nat.mod_eq_of_lt (by omega)]

theorem pending_named_iff (file : File) : PendingNamed file ↔ file.ctx.cpu.pendingRegIdx.toNat < 4 :=
  get_register_byte file.ctx.cpu.pendingRegIdx

theorem fresh_context_named (board : Board) : PendingNamed ⟨board, freshContext⟩ := rfl

theorem execute_keeps_pending (input : Int) (cpu : MyCpu) (board : Board) (instr : Instruction)
    (other : ¬ PlainDirect instr) :
    (executeInstruction input cpu board instr).cpu.pendingRegIdx = cpu.pendingRegIdx ∧
      (executeInstruction input cpu board instr).ret ≠ execPendingMemWrite := by
  have effect := execute_effect input cpu board instr
  generalize executeInstruction input cpu board instr = done at effect ⊢
  cases effect with
  | rejected | halted | jumped | computed | mmioRead => exact ⟨rfl, fun same => by cases same⟩
  | load plain | store plain => exact absurd plain other

theorem read_buf_is_some (cpu : MyCpu) (execRes : Int)
    (usable : execRes = execPendingMemWrite → (getRegister (cpu.pendingRegIdx.setWidth 64)).isSome) :
    (readBuf cpu execRes).isSome := by
  simp only [readBuf]
  split
  · rfl
  · split
    · rename_i store
      rw [Option.isSome_map]
      exact usable store
    · split <;> rfl

def afterExecution (env : ReadEnv) (file : File) : CpuContext :=
  { file.ctx with
    cpu := (executeInstruction env.input file.ctx.cpu (consumeStep file.board) file.ctx.pendingInstruction).cpu }

theorem read_context (env : ReadEnv) (file : File) (len : Nat) (reply : Reply)
    (executing : len = sizeofReadValue ∧ env.wait = 0) (ran : cpuRead env file.board file.ctx len = some reply) :
    reply.ctx = afterExecution env file := by
  obtain ⟨right, woken⟩ := executing
  simp only [cpuRead, ne_eq, right, woken, not_true, if_false] at ran
  split at ran
  · rw [← Option.some.inj ran, afterExecution]
  · obtain ⟨buf, _, rfl⟩ := Option.map_eq_some_iff.mp ran
    split <;> rfl

theorem read_is_some (env : ReadEnv) (file : File) (len : Nat) (executing : len = sizeofReadValue ∧ env.wait = 0)
    (usable : (executeInstruction env.input file.ctx.cpu (consumeStep file.board) file.ctx.pendingInstruction).ret =
      execPendingMemWrite → (pendingRegister (afterExecution env file)).isSome) :
    (cpuRead env file.board file.ctx len).isSome := by
  obtain ⟨right, woken⟩ := executing
  simp only [cpuRead, ne_eq, right, woken, not_true, if_false]
  split
  · rfl
  · rw [Option.isSome_map]
    exact read_buf_is_some _ _ usable

theorem read_not_executing (env : ReadEnv) (file : File) (len : Nat)
    (early : ¬ (len = sizeofReadValue ∧ env.wait = 0)) :
    ∃ reply, cpuRead env file.board file.ctx len = some reply ∧ reply.ctx = file.ctx := by
  simp only [cpuRead]
  by_cases right : len = sizeofReadValue
  · have asleep : env.wait ≠ 0 := fun woken => early ⟨right, woken⟩
    rw [if_neg (not_not_intro right), if_pos asleep]
    exact ⟨_, rfl, rfl⟩
  · rw [if_pos right]
    exact ⟨_, rfl, rfl⟩

theorem write_preserves (file : File) (len : Nat) (copyFault : Bool) (wv : WriteValue) (named : PendingNamed file) :
    ∃ next, callStep file (.write len copyFault wv) = some next ∧ PendingNamed next := by
  simp only [callStep, cpuWrite]
  split
  · exact ⟨_, rfl, named⟩
  · split
    · exact ⟨_, rfl, named⟩
    · split
      · exact ⟨_, rfl, named⟩
      · obtain ⟨reg, found⟩ := Option.isSome_iff_exists.mp named
        rw [show getRegister _ = some reg from found]
        exact ⟨_, rfl, named⟩

theorem read_preserves (file : File) (len : Nat) (env : ReadEnv) (named : PendingNamed file)
    (admitted : NamesRegisters file (.read len env)) :
    ∃ next, callStep file (.read len env) = some next ∧ PendingNamed next := by
  by_cases executing : len = sizeofReadValue ∧ env.wait = 0
  · have kept : (pendingRegister (afterExecution env file)).isSome := by
      by_cases plain : PlainDirect file.ctx.pendingInstruction
      · obtain ⟨ret, ran, _⟩ := plain_direct_executes env.input file.ctx.cpu (consumeStep file.board) _ plain
        have small := admitted file.ctx.pendingInstruction (if_pos executing) plain
        rw [pendingRegister, afterExecution, ran, get_register_byte]
        exact small
      · have same := (execute_keeps_pending env.input file.ctx.cpu (consumeStep file.board) _ plain).1
        rw [pendingRegister, afterExecution, same]
        exact named
    obtain ⟨reply, ran⟩ := Option.isSome_iff_exists.mp (read_is_some env file len executing (fun _ => kept))
    refine ⟨reply.file, by rw [callStep, ran, Option.map_some], ?_⟩
    rw [PendingNamed, Reply.file, read_context env file len reply executing ran]
    exact kept
  · obtain ⟨reply, ran, ctx⟩ := read_not_executing env file len executing
    refine ⟨reply.file, by rw [callStep, ran, Option.map_some], ?_⟩
    rw [PendingNamed, Reply.file, ctx]
    exact named

theorem call_preserves (file : File) (call : Call) (named : PendingNamed file) (admitted : NamesRegisters file call) :
    ∃ next, callStep file call = some next ∧ PendingNamed next := by
  cases call with
  | write len copyFault wv => exact write_preserves file len copyFault wv named
  | read len env => exact read_preserves file len env named admitted
  | elsewhere board => exact ⟨_, rfl, named⟩

theorem call_forces (file : File) (call : Call) (next : File) (taken : callStep file call = some next)
    (named : PendingNamed next) : NamesRegisters file call := by
  intro instr handed plain
  cases call with
  | write | elsewhere => cases handed
  | read len env =>
      simp only [executed] at handed
      split at handed
      · rename_i executing
        obtain rfl := Option.some.inj handed
        obtain ⟨reply, ran, rfl⟩ := Option.map_eq_some_iff.mp taken
        obtain ⟨ret, executes, _⟩ := plain_direct_executes env.input file.ctx.cpu (consumeStep file.board) _ plain
        have recorded := read_context env file len reply executing ran
        rw [pending_named_iff, Reply.file, recorded, afterExecution, executes] at named
        exact named
      · cases handed

theorem client_dereferences_registers (board : Board) (calls : List Call) :
    (∀ soFar, soFar <+: calls →
        ∃ file, Events.run callStep ⟨board, freshContext⟩ soFar = some file ∧ (pendingRegister file.ctx).isSome) ↔
      Events.Along callStep NamesRegisters ⟨board, freshContext⟩ calls := by
  constructor
  · intro reached
    apply Events.along_of_reached callStep NamesRegisters PendingNamed _ _ _ reached
    intro file call next _ taken named
    exact call_forces file call next taken named
  · intro along soFar isPrefix
    have admitted := Events.along_prefix callStep NamesRegisters _ soFar calls isPrefix along
    exact Events.run_total callStep NamesRegisters PendingNamed call_preserves _ soFar (fresh_context_named board) admitted

-- MOV R7, [0] goes through, and the data that the client then delivers for the
-- pending load is stored through NULL.
def unnamedLoad : Instruction where
  operand2 := 0
  operand1 := 7
  opcode := Opcode.mov.code
  mode := Mode.directLoad.code

def unnamedCalls : List Call :=
  [.write sizeofWriteValue false ⟨unnamedLoad, 0, 1⟩, .read sizeofReadValue ⟨0, 0, false⟩,
    .write sizeofWriteValue false ⟨unnamedLoad, 0, 0⟩]

theorem unnamed_load_dereferences_null :
    (Events.run callStep ⟨⟨fun _ => false, false, 0, 0, 0⟩, freshContext⟩ (unnamedCalls.take 2)).map
        (fun file => pendingRegister file.ctx) = some none ∧
      Events.run callStep ⟨⟨fun _ => false, false, 0, 0, 0⟩, freshContext⟩ unnamedCalls = none := by
  exact ⟨rfl, rfl⟩

end CpuEmulator.Driver
