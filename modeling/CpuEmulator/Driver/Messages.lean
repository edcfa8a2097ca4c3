import CpuEmulator.Driver.Changes
import CpuEmulator.Driver.Calls

set_option autoImplicit false

namespace CpuEmulator.Driver

open Library

def submitted : Call → Option Instruction
  | .write len copyFault wv =>
      if len = sizeofWriteValue ∧ copyFault = false ∧ wv.isInstruction ≠ 0 then some wv.instruction else none
  | .read _ _ | .elsewhere _ => none

def answered : Call → Option U64
  | .write len copyFault wv =>
      if len = sizeofWriteValue ∧ copyFault = false ∧ wv.isInstruction = 0 then some wv.val else none
  | .read _ _ | .elsewhere _ => none

inductive CallEffect (file : File) (call : Call) (next : File) : Prop where
  | ignored (noInstruction : submitted call = none) (noData : answered call = none) (idle : executed file call = none)
      (same : next.ctx = file.ctx)
  | submitted (instr : Instruction) (message : submitted call = some instr) (noData : answered call = none)
      (idle : executed file call = none) (stored : next.ctx = { file.ctx with pendingInstruction := instr })
  | answered (value : U64) (reg : Fin 4) (noInstruction : submitted call = none) (message : answered call = some value)
      (idle : executed file call = none) (found : pendingRegister file.ctx = some reg)
      (written : next.ctx = { file.ctx with cpu := file.ctx.cpu.setReg reg value })
  | executed (env : ReadEnv) (passed : call = .read sizeofReadValue env) (noInstruction : submitted call = none)
      (noData : answered call = none) (ran : executed file call = some file.ctx.pendingInstruction) (done : next.ctx = afterExecution env file)

theorem call_effect (file next : File) (call : Call) (taken : callStep file call = some next) :
    CallEffect file call next := by
  cases call with
  | elsewhere board =>
      obtain rfl := Option.some.inj taken
      exact .ignored rfl rfl rfl rfl
  | read len env =>
      obtain ⟨reply, ran, rfl⟩ := Option.map_eq_some_iff.mp taken
      by_cases executing : len = sizeofReadValue ∧ env.wait = 0
      · have done := read_context env file len reply executing ran
        obtain ⟨rfl, woken⟩ := executing
        exact .executed env rfl rfl rfl (if_pos ⟨rfl, woken⟩) done
      · obtain ⟨other, again, same⟩ := read_not_executing env file len executing
        obtain rfl : reply = other := Option.some.inj (ran.symm.trans again)
        exact .ignored rfl rfl (if_neg executing) same
  | write len copyFault wv =>
      obtain ⟨reply, ran, rfl⟩ := Option.map_eq_some_iff.mp taken
      simp only [cpuWrite] at ran
      split at ran
      · rename_i wrong
        obtain rfl := Option.some.inj ran
        exact .ignored (if_neg fun right => wrong right.1) (if_neg fun right => wrong right.1) rfl rfl
      · rename_i right
        have size := not_not.mp right
        split at ran
        · rename_i faulted
          obtain rfl := Option.some.inj ran
          have copied (kind : Prop) : ¬ (len = sizeofWriteValue ∧ copyFault = false ∧ kind) := by
            rw [faulted]
            exact fun all => Bool.noConfusion all.2.1
          exact .ignored (if_neg (copied _)) (if_neg (copied _)) rfl rfl
        · rename_i fine
          have copied := Bool.not_eq_true _ ▸ fine
          split at ran
          · rename_i kind
            obtain rfl := Option.some.inj ran
            exact .submitted wv.instruction (if_pos ⟨size, copied, kind⟩) (if_neg fun data => kind data.2.2) rfl rfl
          · rename_i kind
            obtain ⟨reg, found, rfl⟩ := Option.map_eq_some_iff.mp ran
            exact .answered wv.val reg (if_neg fun instruction => kind instruction.2.2)
              (if_pos ⟨size, copied, not_not.mp kind⟩) rfl found rfl

def lastSubmitted (calls : List Call) : Instruction :=
  (calls.filterMap submitted).getLast?.getD freshContext.pendingInstruction

def executions (start : File) (calls : List Call) : List Instruction := Events.collect callStep executed start calls

def lastRequested (start : File) (calls : List Call) : U8 :=
  ((executions start calls).filter (fun instr => PlainDirect instr)).getLast?.elim 0 (fun instr => instr.operand1)

theorem get_last_append_option {α : Type} (items : List α) (item : Option α) :
    (items ++ item.toList).getLast? = item.or items.getLast? := by
  cases item with
  | none => rw [Option.toList_none, List.append_nil, Option.none_or]
  | some last => exact List.getLast?_concat

theorem last_submitted_snoc (calls : List Call) (call : Call) :
    lastSubmitted (calls ++ [call]) = (submitted call).getD (lastSubmitted calls) := by
  have appended : (calls ++ [call]).filterMap submitted = calls.filterMap submitted ++ (submitted call).toList := by
    rw [List.filterMap_append]
    cases message : submitted call with
    | none => rw [List.filterMap_cons_none message]; rfl
    | some instr => rw [List.filterMap_cons_some message]; rfl
  rw [lastSubmitted, appended, get_last_append_option]
  cases submitted call <;> rfl

theorem executions_snoc (start file : File) (calls : List Call) (call : Call)
    (ran : Events.run callStep start calls = some file) :
    executions start (calls ++ [call]) = executions start calls ++ (executed file call).toList :=
  Events.collect_snoc callStep executed start file calls call ran

theorem last_requested_snoc (start file : File) (calls : List Call) (call : Call)
    (ran : Events.run callStep start calls = some file) :
    lastRequested start (calls ++ [call]) =
      ((executed file call).filter (fun instr => PlainDirect instr)).elim (lastRequested start calls)
        (fun instr => instr.operand1) := by
  have kept (item : Option Instruction) : item.toList.filter (fun instr => PlainDirect instr) =
      (item.filter (fun instr => PlainDirect instr)).toList := by
    cases item with
    | none => rfl
    | some instr => by_cases plain : PlainDirect instr <;> simp [plain, Option.filter]
  rw [lastRequested, executions_snoc start file calls call ran, List.filter_append, kept, get_last_append_option]
  cases (executed file call).filter (fun instr => PlainDirect instr) <;> rfl

theorem execute_pending_reg (input : Int) (cpu : MyCpu) (board : Board) (instr : Instruction) :
    (executeInstruction input cpu board instr).cpu.pendingRegIdx =
      if PlainDirect instr then instr.operand1 else cpu.pendingRegIdx := by
  split
  · rename_i plain
    obtain ⟨ret, ran, _⟩ := plain_direct_executes input cpu board instr plain
    rw [ran]
    rfl
  · rename_i other
    exact (execute_keeps_pending input cpu board instr other).1

structure Remembers (start : File) (calls : List Call) (file : File) : Prop where
  instruction : file.ctx.pendingInstruction = lastSubmitted calls
  request : file.ctx.cpu.pendingRegIdx = lastRequested start calls

theorem remembers_step (start file next : File) (calls : List Call) (call : Call)
    (ran : Events.run callStep start calls = some file) (remembers : Remembers start calls file)
    (taken : callStep file call = some next) : Remembers start (calls ++ [call]) next := by
  obtain ⟨instruction, request⟩ := remembers
  have requested := last_requested_snoc start file calls call ran
  have handed := last_submitted_snoc calls call
  cases call_effect file next call taken with
  | ignored noInstruction _ idle same =>
      rw [idle] at requested
      rw [noInstruction] at handed
      exact ⟨by rw [same, instruction, handed]; rfl, by rw [same, request, requested]; rfl⟩
  | submitted instr message _ idle stored =>
      rw [idle] at requested
      rw [message] at handed
      exact ⟨by rw [stored, handed]; rfl, by rw [stored, requested]; exact request⟩
  | answered value reg noInstruction _ idle _ written =>
      rw [idle] at requested
      rw [noInstruction] at handed
      exact ⟨by rw [written, handed]; exact instruction, by rw [written, requested]; exact request⟩
  | executed env _ noInstruction _ here done =>
      rw [here] at requested
      rw [noInstruction] at handed
      refine ⟨by rw [done, handed]; exact instruction, ?_⟩
      rw [done, afterExecution, execute_pending_reg, requested]
      by_cases plain : PlainDirect file.ctx.pendingInstruction
      · rw [if_pos plain]
        simp [Option.filter, plain]
      · rw [if_neg plain]
        simp [Option.filter, plain, request]

theorem run_remembers (board : Board) (calls : List Call) (file : File)
    (ran : Events.run callStep ⟨board, freshContext⟩ calls = some file) :
    Remembers ⟨board, freshContext⟩ calls file := by
  apply Events.history_induction callStep (fun _ _ => True) ⟨board, freshContext⟩ (Remembers ⟨board, freshContext⟩)
  · exact ⟨rfl, rfl⟩
  · intro soFar state call next before remembers _ taken
    exact remembers_step _ state next soFar call before remembers taken
  · exact Events.along_trivial callStep _ calls
  · exact ran

-- A data write goes to the register that the last plain direct move named, and a
-- read executes what was handed over last, once more if it ran already.
theorem calls_follow_messages (board : Board) (calls : List Call) (file next : File) (call : Call)
    (ran : Events.run callStep ⟨board, freshContext⟩ calls = some file) (taken : callStep file call = some next) :
    (∀ value, answered call = some value →
        ∃ reg, getRegister ((lastRequested ⟨board, freshContext⟩ calls).setWidth 64) = some reg ∧
          next.ctx.cpu = file.ctx.cpu.setReg reg value) ∧
      (∀ instr, executed file call = some instr →
        instr = lastSubmitted calls ∧
          ∃ env, call = .read sizeofReadValue env ∧ next.ctx.cpu =
            (executeInstruction env.input file.ctx.cpu (consumeStep file.board) instr).cpu) ∧
      (∀ last, (executions ⟨board, freshContext⟩ calls).getLast? = some last → PlainDirect last →
        lastRequested ⟨board, freshContext⟩ calls = last.operand1) ∧
      (answered call = none → executed file call = none → next.ctx.cpu = file.ctx.cpu) := by
  obtain ⟨instruction, request⟩ := run_remembers board calls file ran
  have effect := call_effect file next call taken
  refine ⟨?_, ?_, ?_, ?_⟩
  · intro value delivered
    cases effect with
    | ignored _ noData _ _ | submitted _ _ noData _ _ | executed _ _ _ noData _ _ =>
        rw [noData] at delivered
        cases delivered
    | answered other reg _ message _ found written =>
        obtain rfl : other = value := Option.some.inj (message.symm.trans delivered)
        refine ⟨reg, ?_, by rw [written]⟩
        rw [← request]
        exact found
  · intro instr handed
    cases effect with
    | ignored _ _ idle _ | submitted _ _ _ idle _ | answered _ _ _ _ idle _ _ =>
        rw [idle] at handed
        cases handed
    | executed env passed _ _ here done =>
        obtain rfl := Option.some.inj (here.symm.trans handed)
        exact ⟨instruction, env, passed, by rw [done, afterExecution]⟩
  · intro last ended plain
    obtain ⟨earlier, split⟩ := List.getLast?_eq_some_iff.mp ended
    simp [lastRequested, split, List.filter_append, plain]
  · intro noData idle
    cases effect with
    | ignored _ _ _ same => rw [same]
    | submitted _ _ _ _ stored => rw [stored]
    | answered _ _ _ message _ _ _ =>
        rw [message] at noData
        cases noData
    | executed _ _ _ _ here _ =>
        rw [here] at idle
        cases idle

def loadCalls : List Call :=
  [.write sizeofWriteValue false ⟨⟨0x1000, 2, Opcode.mov.code, Mode.directLoad.code⟩, 0, 1⟩,
    .read sizeofReadValue ⟨0, 0, false⟩]

def dataWrite (value : U64) : Call := .write sizeofWriteValue false ⟨⟨0, 0, 0, 0⟩, value, 0⟩

theorem calls_follow_messages_load :
    ∃ file next, Events.run callStep ⟨loadedBoard, freshContext⟩ loadCalls = some file ∧
      callStep file (dataWrite 7) = some next ∧
      ∃ reg, getRegister ((lastRequested ⟨loadedBoard, freshContext⟩ loadCalls).setWidth 64) =
        some reg ∧ next.ctx.cpu = file.ctx.cpu.setReg reg 7 :=
  ⟨_, _, rfl, rfl, (calls_follow_messages _ loadCalls _ _ (dataWrite 7) rfl rfl).1 7 rfl⟩

def addOne : Instruction := ⟨1, 0, Opcode.add.code, Mode.immediate.code⟩

-- Data that no load asked for lands in R0, and one ADD R0, 1 runs at every read.
theorem unasked_data_and_repeated_execution :
    executions ⟨loadedBoard, freshContext⟩ [] = [] ∧
      (Events.run callStep ⟨loadedBoard, freshContext⟩ [dataWrite 5]).map
        (fun file => file.ctx.cpu.regs 0) = some 5 ∧
      executions ⟨loadedBoard, freshContext⟩
        [.write sizeofWriteValue false ⟨addOne, 0, 1⟩, .read sizeofReadValue ⟨0, 0, false⟩,
          .read sizeofReadValue ⟨0, 0, false⟩] = [addOne, addOne] ∧
      (Events.run callStep ⟨loadedBoard, freshContext⟩
        [.write sizeofWriteValue false ⟨addOne, 0, 1⟩, .read sizeofReadValue ⟨0, 0, false⟩,
          .read sizeofReadValue ⟨0, 0, false⟩]).map (fun file => file.ctx.cpu.regs 0) = some 2 :=
  ⟨rfl, rfl, rfl, rfl⟩

end CpuEmulator.Driver
