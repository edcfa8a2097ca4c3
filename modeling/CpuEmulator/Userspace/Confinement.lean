import CpuEmulator.Driver.Retrying
import CpuEmulator.Userspace.Records

set_option autoImplicit false

namespace CpuEmulator.Userspace

open Library Driver

def handedOver (env : IterEnv) (st : RunState) : Option Instruction :=
  submitted (.write sizeofWriteValue env.writeFault st.writeBuf)

def Inside (count : Int) (pc : U64) : Prop := (pc.toNat / instrSize : Nat) < count

instance (count : Int) (pc : U64) : Decidable (Inside count pc) := inferInstanceAs (Decidable (_ < _))

def Unaffected (st : RunState) : LoopStep → Prop
  | .running next => next.ctx = st.ctx ∧ next.memory = st.memory ∧ next.board = st.board
  | .stopped (.exit _ final) => final.ctx = st.ctx ∧ final.memory = st.memory ∧ final.board = st.board
  | .stopped .fault => False

structure Confined (text : List (List Char)) (count : Int) (env : IterEnv) (st : RunState) : Prop where
  outside : ¬ Inside count st.readBuf.pc → handedOver env st = none ∧ Unaffected st (runIteration text count env st)
  fetches : ∀ after, beforeFetch text count env st = .running after → after.readBuf.pc.toNat + 10 < memSize

-- A load is answered in the register that it names, and a store takes its value
-- from there. The data write of a load can fail, unnoticed, before the register
-- is looked at.
def Answerable (env : IterEnv) (instr : Instruction) : Prop :=
  PlainDirect instr → (getRegister (instr.operand1.setWidth 64)).isSome ∨
    modeOf instr.mode = some .directLoad ∧ env.dataFault = true

structure Continues (text : List (List Char)) (env : IterEnv) (st : RunState) : Prop where
  admitted : Admitted env
  copied : env.read.copyFault = false
  accepted : accepts st.ctx.cpu st.writeBuf.instruction = true
  answerable : Answerable env st.writeBuf.instruction
  named : st.readBuf.pc.toNat / instrSize < text.length

def successor (st : RunState) : U64 :=
  if takesBranch st.ctx.cpu st.writeBuf.instruction then target st.writeBuf.instruction else st.ctx.cpu.next

structure Holds (st : RunState) : Prop where
  position : st.readBuf.pc = st.ctx.cpu.pc
  mode : st.writeBuf.isInstruction = 1
  inMemory : st.readBuf.pc.toNat + 10 < memSize

section Serving

variable (env : IterEnv) (st : RunState) (cpu : MyCpu) (instr : Instruction)

inductive Serves : LoopStep → Prop where
  | left (ending : LoopEnd) (stopped : ¬ (accepts cpu instr = true ∧ Answerable env instr)) : Serves (.stopped ending)
  | went (after : RunState) (accepted : accepts cpu instr = true) (answerable : Answerable env instr)
      (buf : after.readBuf = st.readBuf) (pc : after.ctx.cpu.pc = st.ctx.cpu.pc) (mode : after.writeBuf.isInstruction = 1) :
      Serves (.running after)

theorem traced_serves (ret : Int) (after : RunState) (accepted : accepts cpu instr = true) (answerable : Answerable env instr)
    (buf : after.readBuf = st.readBuf) (pc : after.ctx.cpu.pc = st.ctx.cpu.pc) (mode : after.writeBuf.isInstruction = 1) :
    Serves env st cpu instr (.running (traceAccess ret after)) := by
  obtain ⟨_, sameCtx, _, sameBuf, sameWrite, _⟩ := trace_access_frame ret after
  exact .went _ accepted answerable (sameBuf.trans buf) (by rw [sameCtx, pc]) (by rw [sameWrite, mode])

theorem load_serves (plain : PlainDirect instr) (load : modeOf instr.mode = some .directLoad)
    (accepted : accepts cpu instr = true) (code : st.readBuf.execReturn = execPendingMemRead)
    (address : st.readBuf.memAddr = instr.operand2) (register : st.ctx.cpu.pendingRegIdx = instr.operand1) :
    Serves env st cpu instr (serve env st) := by
  have served := load_served env st instr plain code address register
  generalize serve env st = outcome at served ⊢
  cases served with
  | unnamed delivered found =>
      refine .left _ fun both => ?_
      cases both.2 plain with
      | inl named =>
          rw [found] at named
          cases named
      | inr lost =>
          rw [delivered] at lost
          cases lost.2
  | traced after buf pc mode _ _ answered =>
      exact traced_serves env st cpu instr _ after accepted (fun _ => answered.imp_right fun lost => ⟨load, lost⟩) buf pc mode

theorem store_serves (plain : PlainDirect instr) (accepted : accepts cpu instr = true) (answerable : Answerable env instr)
    (code : st.readBuf.execReturn = execPendingMemWrite) (address : st.readBuf.memAddr = instr.operand2)
    (mode : st.writeBuf.isInstruction = 1) : Serves env st cpu instr (serve env st) := by
  rw [serve, code]
  simp only [writeToMemory, address, if_pos (plain_operand_in_memory instr plain)]
  exact traced_serves env st cpu instr _ _ accepted answerable rfl rfl mode

theorem unrequested (input : Int) (board : Board) (code : (executeInstruction input cpu board instr).ret ≠ execPendingMemRead ∧
    (executeInstruction input cpu board instr).ret ≠ execPendingMemWrite) : Answerable env instr := by
  intro plain
  obtain ⟨ret, executed, pending⟩ := plain_direct_executes input cpu board instr plain
  rw [executed] at code
  exact absurd pending (not_or.mpr code)

theorem store_answerable (board : Board) (buf : ReadValue)
    (reply : readBuf (leave cpu (request cpu instr) board execPendingMemWrite).cpu execPendingMemWrite = some buf) :
    Answerable env instr := by
  intro _
  obtain ⟨reg, found, _⟩ := Option.map_eq_some_iff.mp reply
  exact Or.inl (Option.isSome_of_eq_some found)

theorem serve_serves (input : Int) (board : Board) (buf : ReadValue)
    (answered : Answered (executeInstruction input cpu board instr) st)
    (reply : readBuf (executeInstruction input cpu board instr).cpu (executeInstruction input cpu board instr).ret = some buf) :
    Serves env st cpu instr (serve env st) := by
  have changes := execute_changes input cpu board instr
  have stops := execute_stops_iff input cpu board instr
  have free := unrequested env cpu instr input board
  obtain ⟨same, code, address, valid, mode⟩ := answered
  generalize executeInstruction input cpu board instr = done at *
  have accepted (running : ¬ Stops done) : accepts cpu instr = true := Bool.not_eq_false _ ▸ mt stops.mpr running
  have succeeded (ret : done.ret = execSuccess) : Serves env st cpu instr (serve env st) := by
    rw [serve_success env st (code.trans ret)]
    refine .went st (accepted (goes_on_of_code done _ ret (by decide))) (free ?_) rfl rfl mode
    rw [ret]
    decide
  cases changes with
  | failed ret _ _ =>
      rcases ret with rejected | halted
      · exact absurd rejected valid
      · rw [serve_halt env st (code.trans halted)]
        refine .left _ fun both => ?_
        rw [stops.mp (Or.inr halted)] at both
        cases both.1
  | assigned _ _ _ ret => exact succeeded ret
  | compared _ _ ret => exact succeeded ret
  | moved ret => exact succeeded ret
  | sampled _ _ _ _ ret =>
      rw [serve_mmio_read env st (code.trans ret)]
      refine .went _ (accepted (goes_on_of_code done _ ret (by decide))) (free ?_) rfl rfl mode
      rw [ret]
      decide
  | requested plain ret _ _ changed =>
      rw [changed] at same address reply
      by_cases load : modeOf instr.mode = some .directLoad
      · rw [if_pos load] at ret
        exact load_serves env st cpu instr plain load (accepted (goes_on_of_code done _ ret (by decide))) (code.trans ret)
          (address (Or.inl ret)) (by rw [same]; rfl)
      · rw [if_neg load] at ret
        rw [ret] at reply
        exact store_serves env st cpu instr plain (accepted (goes_on_of_code done _ ret (by decide)))
          (store_answerable env cpu instr board buf reply) (code.trans ret) (address (Or.inr ret)) mode

end Serving

section Step

variable (text : List (List Char)) (count : Int) (env : IterEnv) (st : RunState)

inductive Reaches : LoopStep → Prop where
  | left (ending : LoopEnd) (stopped : Inside count st.readBuf.pc → ¬ Continues text env st) : Reaches (.stopped ending)
  | fetches (after : RunState) (continues : Continues text env st) (position : after.readBuf.pc = successor st)
      (pc : after.ctx.cpu.pc = successor st) (mode : after.writeBuf.isInstruction = 1) : Reaches (.running after)

theorem accepted_successor (accepted : accepts st.ctx.cpu st.writeBuf.instruction = true) :
    (passExecuted env st).cpu.pc = successor st := by
  have stops := execute_stops_iff env.read.input st.ctx.cpu (consumeStep st.board) st.writeBuf.instruction
  have changes := changes_only_named st.ctx.cpu st.writeBuf.instruction _
    (execute_changes env.read.input st.ctx.cpu (consumeStep st.board) st.writeBuf.instruction)
  have running : ¬ Stops (passExecuted env st) := fun stopped => by
    rw [stops.mp stopped] at accepted
    cases accepted
  exact (changes.2 (fun code => running (Or.inl code)) (fun code => running (Or.inr code))).pc

theorem labelled_reaches (holds : Holds st) (admitted : Admitted env) (copied : env.read.copyFault = false) (buf : ReadValue)
    (reply : readBuf (passExecuted env st).cpu (passExecuted env st).ret = some buf)
    (valid : (passExecuted env st).ret ≠ -einval) :
    Reaches text count env st (labelled text count env (instructionIndex st.readBuf.pc) (passReplied env st buf)) := by
  obtain ⟨pc, code, address⟩ := read_buf_fields _ _ buf reply
  rw [labelled, instruction_index_in_memory _ holds.inMemory]
  split
  · rename_i outside
    exact .left _ fun inside => absurd inside (Int.not_lt.mpr outside)
  · rw [text_at_index]
    cases found : text[st.readBuf.pc.toNat / instrSize]? with
    | none => exact .left _ fun _ continues => Nat.not_lt.mpr (List.getElem?_eq_none_iff.mp found) continues.named
    | some line =>
        have named := (List.getElem?_eq_some_iff.mp found).1
        have serves := serve_serves env (print (.executed line) (passReplied env st buf)) st.ctx.cpu st.writeBuf.instruction
          env.read.input (consumeStep st.board) buf ⟨rfl, code, address, valid, holds.mode⟩ reply
        dsimp only
        generalize serve env _ = served at serves ⊢
        cases serves with
        | left ending stopped => exact .left ending fun _ continues => stopped ⟨continues.accepted, continues.answerable⟩
        | went after accepted answerable same samePc mode =>
            have moved := accepted_successor env st accepted
            refine .fetches after ⟨admitted, copied, accepted, answerable, named⟩ ?_ ?_ mode
            · rw [same]
              exact pc.trans moved
            · rw [samePc]
              exact moved

theorem unanswered_stops (unanswered : readBuf (passExecuted env st).cpu (passExecuted env st).ret = none) :
    ¬ Continues text env st := by
  intro continues
  have effect := execute_effect env.read.input st.ctx.cpu (consumeStep st.board) st.writeBuf.instruction
  have usable : (passExecuted env st).ret = execPendingMemWrite →
      (getRegister ((passExecuted env st).cpu.pendingRegIdx.setWidth 64)).isSome := by
    have answerable := continues.answerable
    rw [passExecuted]
    generalize executeInstruction _ _ _ _ = done at effect ⊢
    cases effect with
    | rejected | halted | computed | jumped | mmioRead | load =>
        intro pending
        cases pending
    | store plain mode =>
        intro _
        cases answerable plain with
        | inl named => exact named
        | inr lost =>
            rw [mode] at lost
            cases lost.1
  have answered := read_buf_is_some _ _ usable
  rw [unanswered] at answered
  cases answered

theorem before_fetch_reaches (holds : Holds st) : Reaches text count env st (beforeFetch text count env st) := by
  have driven := before_fetch_driven text count env st holds.mode
  generalize beforeFetch text count env st = before at driven ⊢
  cases driven with
  | left ret final _ _ ended =>
      refine .left _ fun _ continues => ended ⟨continues.admitted, continues.copied, fun rejected => ?_⟩
      have accepted := continues.accepted
      rw [(execute_stops_iff _ _ _ _).mp (Or.inl rejected)] at accepted
      cases accepted
  | fault unanswered => exact .left _ fun _ => unanswered_stops text env st unanswered
  | replied buf reply admitted copied accepted =>
      exact labelled_reaches text count env st holds admitted copied buf reply accepted

theorem refetch_holds (after next : RunState) (position : after.readBuf.pc = after.ctx.cpu.pc)
    (mode : after.writeBuf.isInstruction = 1) (fetched : refetch env after = .running next) :
    next.readBuf.pc = after.readBuf.pc ∧ Holds next := by
  rw [refetch] at fetched
  cases found : fetchNext after.memory after.readBuf.pc with
  | none =>
      rw [found] at fetched
      cases fetched
  | some instr =>
      rw [found] at fetched
      obtain rfl := Progress.running.inj fetched
      obtain ⟨_, sameCtx, _, sameBuf, sameWrite⟩ := trace_fetch_frame env.fetchTrace (holdNext instr after)
      refine ⟨by rw [sameBuf]; rfl, ?_, ?_, ?_⟩
      · rw [sameBuf, sameCtx]
        exact position
      · rw [sameWrite]
        exact mode
      · rw [sameBuf]
        exact fetched_in_memory after.memory after.readBuf.pc instr found

theorem refetch_in_memory (after : RunState) (inMemory : after.readBuf.pc.toNat + 10 < memSize) :
    ∃ next, refetch env after = .running next := by
  rw [refetch, fetchNext, if_pos inMemory]
  exact ⟨_, rfl⟩

theorem pass_holds (next : RunState) (holds : Holds st) (stepped : runIteration text count env st = .running next) :
    Holds next ∧ Continues text env st ∧ next.readBuf.pc = successor st := by
  have reaches := before_fetch_reaches text count env st holds
  rw [run_iteration_fetches] at stepped
  generalize beforeFetch text count env st = before at reaches stepped
  cases reaches with
  | left ending _ => cases stepped
  | fetches after continues position pc mode =>
      obtain ⟨same, kept⟩ := refetch_holds env after next (position.trans pc.symm) mode stepped
      exact ⟨kept, continues, same.trans position⟩

theorem pass_goes_on (holds : Holds st) (inside : Inside count st.readBuf.pc) (continues : Continues text env st) :
    ∃ after, beforeFetch text count env st = .running after ∧ after.readBuf.pc = successor st := by
  have reaches := before_fetch_reaches text count env st holds
  generalize beforeFetch text count env st = before at reaches ⊢
  cases reaches with
  | left ending stopped => exact absurd continues (stopped inside)
  | fetches after _ position _ _ => exact ⟨after, rfl, position⟩

theorem handed_over_iff (holds : Holds st) : handedOver env st = none ↔ env.writeFault = true := by
  have carries : st.writeBuf.isInstruction ≠ 0 := by rw [holds.mode]; decide
  rw [handedOver, submitted]
  cases env.writeFault with
  | true => exact iff_of_true (if_neg fun all => Bool.noConfusion all.2.1) rfl
  | false =>
      rw [if_pos ⟨rfl, rfl, carries⟩]
      exact iff_of_false (fun none => by cases none) (by decide)

theorem confined_inside (holds : Holds st) (confined : Confined text count env st) (delivered : env.writeFault = false) :
    Inside count st.readBuf.pc := by
  by_contra outside
  have kept := (handed_over_iff env st holds).mp (confined.outside outside).1
  rw [delivered] at kept
  cases kept

-- The condition on one pass: where its instruction leads is in memory and, if
-- the next write reaches the driver, in the program.
def LeadsInside (following : IterEnv) : Prop :=
  Continues text env st →
    (successor st).toNat + 10 < memSize ∧ (following.writeFault = false → Inside count (successor st))

theorem confined_of_inside (following : IterEnv) (holds : Holds st)
    (inside : env.writeFault = false → Inside count st.readBuf.pc) (leads : LeadsInside text count env st following) :
    Confined text count env st where
  outside := by
    intro outside
    have faulted : env.writeFault = true := Bool.not_eq_false _ ▸ fun delivered => outside (inside delivered)
    refine ⟨(handed_over_iff env st holds).mpr faulted, ?_⟩
    simp only [runIteration, faulted]
    exact ⟨rfl, rfl, rfl⟩
  fetches := by
    intro after reached
    have reaches := before_fetch_reaches text count env st holds
    rw [reached] at reaches
    cases reaches with
    | fetches _ continues position _ _ =>
        rw [position]
        exact (leads continues).1

end Step

section Loop

variable (text : List (List Char)) (count : Int) (envs : Nat → IterEnv) (opening : OpenEnv) (board : Board) (memory : Memory)

theorem opened_fresh (runSw pauseSw : Int) (kzalloc : Bool) (opened : Board) (ctx : CpuContext)
    (opens : cpuOpen runSw pauseSw kzalloc board = (opened, .ok ctx)) : ctx = freshContext := by
  rw [cpuOpen] at opens
  split at opens
  · cases opens
  · split at opens
    · exact (Except.ok.inj (congrArg Prod.snd opens)).symm
    · cases opens

theorem start_holds (st : RunState) (started : runStart opening board memory = .running st) : Holds st ∧ st.readBuf.pc = 0 := by
  have inMemory : (0 : U64).toNat + 10 < memSize := by decide
  simp only [runStart, fetchNext, if_pos inMemory] at started
  split at started
  · cases started
  · rename_i opened ctx opens
    split at started
    · cases started
    · obtain rfl := Progress.running.inj started
      obtain rfl := opened_fresh board _ _ _ _ _ opens
      refine ⟨⟨?_, ?_, ?_⟩, ?_⟩
      · simp [freshContext]
      · simp
      · simp [memSize]
      · simp

theorem run_holds (k : Nat) (st : RunState) (current : runLoop text count envs (runStart opening board memory) k = .running st) :
    Holds st := by
  induction k generalizing st with
  | zero => exact (start_holds opening board memory st current).1
  | succ k ih =>
      obtain ⟨before, reached, stepped⟩ := Progress.iterate_running_before _ _ k st current
      exact (pass_holds text count (envs k) before st (ih before reached) stepped).1

section Outside

variable (positive : ∀ st, runLoop text count envs (runStart opening board memory) 0 = .running st →
  (envs 0).writeFault = false → 0 < count)
variable (leads : ∀ k st, runLoop text count envs (runStart opening board memory) k = .running st →
  LeadsInside text count (envs k) st (envs (k + 1)))

include positive leads in
theorem handed_inside (k : Nat) (st : RunState)
    (current : runLoop text count envs (runStart opening board memory) k = .running st)
    (delivered : (envs k).writeFault = false) : Inside count st.readBuf.pc := by
  cases k with
  | zero =>
      have nonempty := positive st current delivered
      rw [Inside, (start_holds opening board memory st current).2]
      exact nonempty
  | succ k =>
      obtain ⟨before, reached, stepped⟩ := Progress.iterate_running_before _ _ k st current
      have holds := run_holds text count envs opening board memory k before reached
      obtain ⟨_, continues, position⟩ := pass_holds text count (envs k) before st holds stepped
      rw [position]
      exact (leads k before reached continues).2 delivered

end Outside

theorem confined_leads (confined : ∀ k st, runLoop text count envs (runStart opening board memory) k = .running st →
      Confined text count (envs k) st) (k : Nat) (st : RunState)
    (current : runLoop text count envs (runStart opening board memory) k = .running st) :
    LeadsInside text count (envs k) st (envs (k + 1)) := by
  intro continues
  have holds := run_holds text count envs opening board memory k st current
  have here := confined k st current
  have inside := confined_inside text count (envs k) st holds here continues.admitted.1
  obtain ⟨after, reached, position⟩ := pass_goes_on text count (envs k) st holds inside continues
  have inMemory := here.fetches after reached
  refine ⟨position ▸ inMemory, fun delivered => ?_⟩
  obtain ⟨next, fetched⟩ := refetch_in_memory (envs k) after inMemory
  have stepped : runIteration text count (envs k) st = .running next := by
    rw [run_iteration_fetches, reached]
    exact fetched
  have later : runLoop text count envs (runStart opening board memory) (k + 1) = .running next :=
    (Progress.iterate_from_running _ _ k st current).trans stepped
  obtain ⟨kept, _, moved⟩ := pass_holds text count (envs k) st next holds stepped
  rw [← moved]
  exact confined_inside text count (envs (k + 1)) next kept (confined (k + 1) next later) delivered

-- The index is compared with the count after the driver has executed the
-- instruction, and the pc of the next fetch with nothing.
theorem run_confined_iff :
    (∀ k st, runLoop text count envs (runStart opening board memory) k = .running st → Confined text count (envs k) st) ↔
      (∀ st, runLoop text count envs (runStart opening board memory) 0 = .running st →
        (envs 0).writeFault = false → 0 < count) ∧
      ∀ k st, runLoop text count envs (runStart opening board memory) k = .running st →
        LeadsInside text count (envs k) st (envs (k + 1)) := by
  constructor
  · intro confined
    refine ⟨fun st current delivered => ?_, confined_leads text count envs opening board memory confined⟩
    obtain ⟨holds, position⟩ := start_holds opening board memory st current
    have inside := confined_inside text count (envs 0) st holds (confined 0 st current) delivered
    rw [Inside, position] at inside
    exact inside
  · rintro ⟨positive, leads⟩ k st current
    exact confined_of_inside text count (envs k) st (envs (k + 1)) (run_holds text count envs opening board memory k st current)
      (handed_inside text count envs opening board memory positive leads k st current) (leads k st current)

end Loop

-- JMP 1, which leads to the ADD R0, 1 behind the program, and JMP 0x10000.
def leavingImage : Memory
  | 0 => Opcode.jmp.code
  | 1 => Mode.label.code
  | 3 => 1
  | 14 => 1
  | _ => 0

def wildImage : Memory
  | 0 => Opcode.jmp.code
  | 1 => Mode.label.code
  | 5 => 1
  | _ => 0

theorem instruction_behind_program_executed :
    ¬ (∀ (text : List (List Char)) (count : Int) (envs : Nat → IterEnv) (opening : OpenEnv) (board : Board) (memory : Memory)
        (k : Nat) (st : RunState), runLoop text count envs (runStart opening board memory) k = .running st →
          Confined text count (envs k) st) ∧
      (∃ final, runLoop [['j']] 1 (fun _ => pressedEnv) (runStart startedOpening darkBoard leavingImage) 2 =
          .stopped (.exit 0 final) ∧ final.ctx.cpu.regs 0 = 1 ∧ final.stdout = [.executed ['j'], .countExceeded]) ∧
      runLoop [['j']] 1 (fun _ => pressedEnv) (runStart startedOpening darkBoard wildImage) 1 = .stopped .fault := by
  refine ⟨fun confined => ?_, ⟨_, rfl, rfl, rfl⟩, rfl⟩
  have current : ∃ st, runLoop [['j']] 1 (fun _ => pressedEnv) (runStart startedOpening darkBoard leavingImage) 1 = .running st ∧
      st.readBuf.pc = 11 ∧ handedOver pressedEnv st = some addOne := ⟨_, rfl, rfl, rfl⟩
  obtain ⟨st, reached, position, handed⟩ := current
  have here := confined _ _ _ _ _ _ 1 st reached
  have outside : ¬ Inside 1 st.readBuf.pc := by
    rw [position]
    decide
  rw [(here.outside outside).1] at handed
  cases handed

end CpuEmulator.Userspace
