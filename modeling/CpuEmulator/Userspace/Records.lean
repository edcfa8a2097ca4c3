import CpuEmulator.Driver.Changes
import CpuEmulator.Userspace.BeforeFetch
import CpuEmulator.Userspace.ProgramRefinement

set_option autoImplicit false

namespace CpuEmulator.Userspace

open Library Driver

structure Pass where
  pc : U64
  instr : Instruction

def dataRecord (instr : Instruction) : List MemAccess :=
  if PlainDirect instr then [⟨instr.operand2, if modeOf instr.mode = some .directLoad then 0 else 1⟩] else []

-- The fetch of every pass and, between two fetches, the access of the first of
-- the two instructions. The last pass has made no access yet.
def accessRecords : List Pass → List MemAccess
  | [] => []
  | [pass] => [⟨pass.pc, 0⟩]
  | pass :: next :: rest => ⟨pass.pc, 0⟩ :: (dataRecord pass.instr ++ accessRecords (next :: rest))

theorem access_records_snoc (before : List Pass) (pass next : Pass) :
    accessRecords (before ++ [pass, next]) =
      accessRecords (before ++ [pass]) ++ dataRecord pass.instr ++ [⟨next.pc, 0⟩] := by
  induction before with
  | nil => rfl
  | cons first rest ih =>
      cases rest with
      | nil => simp [accessRecords]
      | cons second rest =>
          rw [List.cons_append, List.cons_append, List.cons_append, List.cons_append, accessRecords, accessRecords,
            ← List.cons_append, ← List.cons_append, ih]
          simp only [List.cons_append, List.append_assoc]

theorem read_buf_fields (cpu : MyCpu) (ret : Int) (buf : ReadValue) (reply : readBuf cpu ret = some buf) :
    buf.pc = cpu.pc ∧ buf.execReturn = ret ∧
      (ret = execPendingMemRead ∨ ret = execPendingMemWrite → buf.memAddr = cpu.pendingMemAddr) := by
  simp only [readBuf] at reply
  split at reply
  · obtain rfl := Option.some.inj reply
    exact ⟨rfl, rfl, fun _ => rfl⟩
  · rename_i notRead
    split at reply
    · obtain ⟨reg, _, rfl⟩ := Option.map_eq_some_iff.mp reply
      exact ⟨rfl, rfl, fun _ => rfl⟩
    · rename_i notWrite
      split at reply <;> obtain rfl := Option.some.inj reply <;>
        exact ⟨rfl, rfl, fun pending => absurd pending (not_or.mpr ⟨notRead, notWrite⟩)⟩

theorem data_record_none (input : Int) (cpu : MyCpu) (board : Board) (instr : Instruction)
    (read : (executeInstruction input cpu board instr).ret ≠ execPendingMemRead)
    (write : (executeInstruction input cpu board instr).ret ≠ execPendingMemWrite) : dataRecord instr = [] := by
  apply if_neg
  intro plain
  obtain ⟨ret, executed, pending⟩ := plain_direct_executes input cpu board instr plain
  rw [executed] at read write
  rcases pending with rfl | rfl
  · exact read rfl
  · exact write rfl

theorem named_register (instr : Instruction) (plain : PlainDirect instr) (named : NamesRegister instr) :
    ∃ reg, getRegister (instr.operand1.setWidth 64) = some reg := by
  obtain ⟨_, mode, _⟩ := plain
  exact Option.isSome_iff_exists.mp ((get_register_byte instr.operand1).mpr (named mode))

theorem named_answered (input : Int) (cpu : MyCpu) (board : Board) (instr : Instruction) (named : NamesRegister instr) :
    (readBuf (executeInstruction input cpu board instr).cpu (executeInstruction input cpu board instr).ret).isSome := by
  apply read_buf_is_some
  have effect := execute_effect input cpu board instr
  generalize executeInstruction input cpu board instr = done at effect ⊢
  cases effect with
  | rejected | halted | computed | jumped | mmioRead | load =>
      intro pending
      cases pending
  | store plain =>
      intro _
      obtain ⟨reg, lookup⟩ := named_register instr plain named
      exact Option.isSome_of_eq_some lookup

theorem plain_operand_in_memory (instr : Instruction) (plain : PlainDirect instr) : instr.operand2.toNat + 7 < memSize := by
  obtain ⟨_, _, mmio⟩ := plain
  rw [is_mmio_plain, Bool.not_eq_false'] at mmio
  exact plain_address_in_memory _ (of_decide_eq_true mmio)

theorem trace_access_trace (ret : Int) (st : RunState) (traced : 0 ≤ ret) :
    (traceAccess ret st).trace = st.trace ++ [st.access] := by
  rw [traceAccess, if_pos traced]

inductive Switched (st : RunState) (instr : Instruction) : LoopStep → Prop where
  | left (ret : Int) (final : RunState) (quiet : final.trace = st.trace) (same : final.ctx = st.ctx) :
      Switched st instr (.stopped (.exit ret final))
  | fault (unnamed : ¬ NamesRegister instr) : Switched st instr (.stopped .fault)
  | went (after : RunState) (pc : after.ctx.cpu.pc = st.ctx.cpu.pc) (buf : after.readBuf = st.readBuf)
      (mode : after.writeBuf.isInstruction = 1) (recorded : after.trace = st.trace ++ dataRecord instr) :
      Switched st instr (.running after)

structure Answered (done : Executed) (st : RunState) : Prop where
  cpu : st.ctx.cpu = done.cpu
  code : st.readBuf.execReturn = done.ret
  address : done.ret = execPendingMemRead ∨ done.ret = execPendingMemWrite → st.readBuf.memAddr = done.cpu.pendingMemAddr
  accepted : done.ret ≠ -einval
  mode : st.writeBuf.isInstruction = 1

theorem traced_switched (ret : Int) (st after : RunState) (instr : Instruction) (traced : 0 ≤ ret)
    (pc : after.ctx.cpu.pc = st.ctx.cpu.pc) (buf : after.readBuf = st.readBuf) (mode : after.writeBuf.isInstruction = 1)
    (kept : after.trace = st.trace) (record : dataRecord instr = [after.access]) :
    Switched st instr (.running (traceAccess ret after)) := by
  obtain ⟨_, sameCtx, _, sameBuf, sameWrite, _⟩ := trace_access_frame ret after
  refine .went _ ?_ ?_ ?_ ?_
  · rw [sameCtx, pc]
  · rw [sameBuf, buf]
  · rw [sameWrite, mode]
  · rw [trace_access_trace ret after traced, kept, record]

inductive LoadServed (env : IterEnv) (st : RunState) (instr : Instruction) : LoopStep → Prop where
  | unnamed (delivered : env.dataFault = false) (found : getRegister (instr.operand1.setWidth 64) = none) :
      LoadServed env st instr (.stopped .fault)
  | traced (after : RunState) (buf : after.readBuf = st.readBuf) (pc : after.ctx.cpu.pc = st.ctx.cpu.pc)
      (mode : after.writeBuf.isInstruction = 1) (kept : after.trace = st.trace) (access : after.access = ⟨instr.operand2, 0⟩)
      (answered : (getRegister (instr.operand1.setWidth 64)).isSome ∨ env.dataFault = true) :
      LoadServed env st instr (.running (traceAccess env.dataTrace after))

theorem load_served (env : IterEnv) (st : RunState) (instr : Instruction) (plain : PlainDirect instr)
    (code : st.readBuf.execReturn = execPendingMemRead) (address : st.readBuf.memAddr = instr.operand2)
    (register : st.ctx.cpu.pendingRegIdx = instr.operand1) : LoadServed env st instr (serve env st) := by
  rw [serve, code]
  simp only [readFromMemory, address, if_pos (plain_operand_in_memory instr plain)]
  cases faulted : env.dataFault with
  | true => exact .traced _ rfl rfl rfl rfl rfl (Or.inr faulted)
  | false =>
      cases found : getRegister (st.ctx.cpu.pendingRegIdx.setWidth 64) with
      | none =>
          have unanswered : cpuWrite st.board st.ctx sizeofWriteValue false
              { st.writeBuf with isInstruction := 0, val := leWord 64 (fun i => st.memory (instr.operand2.toNat + i)) 8 } =
                none := by
            simp [cpuWrite, found]
          rw [unanswered]
          exact .unnamed faulted (register ▸ found)
      | some reg =>
          rw [data_written _ _ _ reg rfl found]
          exact .traced _ rfl rfl rfl rfl rfl (Or.inl (Option.isSome_of_eq_some (register ▸ found)))

theorem load_switched (env : IterEnv) (st : RunState) (instr : Instruction) (plain : PlainDirect instr)
    (load : modeOf instr.mode = some .directLoad) (traced : 0 ≤ env.dataTrace)
    (code : st.readBuf.execReturn = execPendingMemRead) (address : st.readBuf.memAddr = instr.operand2)
    (register : st.ctx.cpu.pendingRegIdx = instr.operand1) : Switched st instr (serve env st) := by
  have served := load_served env st instr plain code address register
  generalize serve env st = outcome at served ⊢
  cases served with
  | unnamed _ found =>
      refine .fault fun named => ?_
      obtain ⟨reg, lookup⟩ := named_register instr plain named
      rw [lookup] at found
      cases found
  | traced after buf pc mode kept access _ =>
      have record : dataRecord instr = [after.access] := by rw [dataRecord, if_pos plain, if_pos load, access]
      exact traced_switched _ st after instr traced pc buf mode kept record

theorem store_switched (env : IterEnv) (st : RunState) (instr : Instruction) (plain : PlainDirect instr)
    (store : modeOf instr.mode ≠ some .directLoad) (traced : 0 ≤ env.dataTrace)
    (code : st.readBuf.execReturn = execPendingMemWrite) (address : st.readBuf.memAddr = instr.operand2)
    (mode : st.writeBuf.isInstruction = 1) : Switched st instr (serve env st) := by
  have record : dataRecord instr = [⟨instr.operand2, 1⟩] := by rw [dataRecord, if_pos plain, if_neg store]
  rw [serve, code]
  simp only [writeToMemory, address, if_pos (plain_operand_in_memory instr plain)]
  exact traced_switched _ st _ instr traced rfl rfl mode rfl record

theorem serve_switched (input : Int) (cpu : MyCpu) (board : Board) (instr : Instruction) (env : IterEnv) (st : RunState)
    (answered : Answered (executeInstruction input cpu board instr) st) (traced : 0 ≤ env.dataTrace) :
    Switched st instr (serve env st) := by
  have changes := execute_changes input cpu board instr
  have unrecorded := data_record_none input cpu board instr
  obtain ⟨same, code, address, accepted, mode⟩ := answered
  generalize executeInstruction input cpu board instr = done at *
  have succeeded (ret : done.ret = execSuccess) : Switched st instr (serve env st) := by
    rw [ret] at unrecorded
    rw [serve_success env st (code.trans ret)]
    exact .went st rfl rfl mode (by rw [unrecorded (by decide) (by decide), List.append_nil])
  cases changes with
  | failed ret _ _ =>
      rcases ret with rejected | halted
      · exact absurd rejected accepted
      · rw [serve_halt env st (code.trans halted)]
        exact .left 0 st rfl rfl
  | assigned _ _ _ ret => exact succeeded ret
  | compared _ _ ret => exact succeeded ret
  | moved ret => exact succeeded ret
  | sampled _ _ _ _ ret =>
      rw [ret] at unrecorded
      rw [serve_mmio_read env st (code.trans ret)]
      exact .went _ rfl rfl mode (by rw [unrecorded (by decide) (by decide), List.append_nil]; rfl)
  | requested plain ret _ _ changed =>
      rw [changed] at same address
      have register : st.ctx.cpu.pendingRegIdx = instr.operand1 := by rw [same]; rfl
      by_cases load : modeOf instr.mode = some .directLoad
      · rw [if_pos load] at ret
        exact load_switched env st instr plain load traced (code.trans ret) (address (Or.inl ret)) register
      · rw [if_neg load] at ret
        exact store_switched env st instr plain load traced (code.trans ret) (address (Or.inr ret)) mode

section Step

variable (text : List (List Char)) (count : Int) (env : IterEnv) (st : RunState)

inductive Handed : LoopStep → Prop where
  | left (ret : Int) (final : RunState) (quiet : final.trace = st.trace)
      (executed : final.ctx.cpu = cpuAfter env st) : Handed (.stopped (.exit ret final))
  | fault (unanswered : readBuf (passExecuted env st).cpu (passExecuted env st).ret = none) : Handed (.stopped .fault)
  | replied (buf : ReadValue) (reply : readBuf (passExecuted env st).cpu (passExecuted env st).ret = some buf)
      (admitted : Admitted env) (accepted : (passExecuted env st).ret ≠ -einval) :
      Handed (afterRead text count env (instructionIndex st.readBuf.pc) (passReplied env st buf))

theorem pass_handed (mode : st.writeBuf.isInstruction = 1) : Handed text count env st (runIteration text count env st) := by
  have driven := before_fetch_driven text count env st mode
  rw [run_iteration_fetches]
  generalize beforeFetch text count env st = before at driven ⊢
  cases driven with
  | left ret final quiet executed _ => exact .left ret final quiet executed
  | fault unanswered => exact .fault unanswered
  | replied buf reply admitted _ accepted =>
      rw [← after_read_fetches]
      exact .replied buf reply admitted accepted

structure WithinBounds : Prop where
  named : NamesRegister st.writeBuf.instruction
  texts : text.length = count
  fetchable : (passExecuted env st).cpu.pc.toNat + 10 < memSize

inductive Passed : LoopStep → Prop where
  | left (ret : Int) (final : RunState) (quiet : final.trace = st.trace)
      (executed : final.ctx.cpu = cpuAfter env st) : Passed (.stopped (.exit ret final))
  | fault (unbound : ¬ WithinBounds text count env st) : Passed (.stopped .fault)
  | went (next : RunState) (ready : Ready next (view next.ctx.cpu next.memory))
      (pc : next.ctx.cpu.pc = (passExecuted env st).cpu.pc)
      (recorded : next.trace = st.trace ++ dataRecord st.writeBuf.instruction ++ [⟨next.ctx.cpu.pc, 0⟩]) :
      Passed (.running next)

theorem trace_fetch_trace (ret : Int) (st : RunState) (traced : 0 ≤ ret) :
    (traceFetch ret st).trace = st.trace ++ [st.access] := by
  rw [traceFetch, if_neg (Int.not_lt.mpr traced)]
  exact trace_access_trace ret st traced

theorem fetched_in_memory (memory : Memory) (pc : U64) (instr : Instruction) (fetched : fetchNext memory pc = some instr) :
    pc.toNat + 10 < memSize := by
  rw [fetchNext] at fetched
  split at fetched
  · assumption
  · cases fetched

theorem refetch_passed (after : RunState) (traced : 0 ≤ env.fetchTrace)
    (position : after.readBuf.pc = after.ctx.cpu.pc) (pc : after.ctx.cpu.pc = (passExecuted env st).cpu.pc)
    (mode : after.writeBuf.isInstruction = 1)
    (recorded : after.trace = st.trace ++ dataRecord st.writeBuf.instruction) :
    Passed text count env st (refetch env after) := by
  rw [refetch]
  cases fetched : fetchNext after.memory after.readBuf.pc with
  | none =>
      refine .fault fun bound => ?_
      have inside := bound.fetchable
      rw [← pc, ← position] at inside
      rw [fetchNext, if_pos inside] at fetched
      cases fetched
  | some instr =>
      obtain ⟨_, sameCtx, sameMemory, sameBuf, sameWrite⟩ := trace_fetch_frame env.fetchTrace (holdNext instr after)
      refine .went _ ⟨rfl, ?_, ?_, ?_⟩ ?_ ?_
      · rw [sameBuf, sameCtx]
        exact position
      · rw [sameWrite]
        exact mode
      · rw [sameCtx, sameMemory, sameWrite]
        change fetchNext after.memory after.ctx.cpu.pc = some instr
        rw [← position, fetched]
      · rw [sameCtx]
        exact pc
      · rw [trace_fetch_trace _ _ traced, sameCtx, ← recorded]
        exact congrArg (fun pc => after.trace ++ [⟨pc, 0⟩]) position

theorem pass_passed (ready : Ready st (view st.ctx.cpu st.memory)) (data : 0 ≤ env.dataTrace) (fetch : 0 ≤ env.fetchTrace) :
    Passed text count env st (runIteration text count env st) := by
  have handed := pass_handed text count env st ready.isInstruction
  generalize runIteration text count env st = after at handed ⊢
  cases handed with
  | left ret final quiet executed => exact .left ret final quiet executed
  | fault unanswered =>
      refine .fault fun bound => ?_
      have answered := named_answered env.read.input st.ctx.cpu (consumeStep st.board) st.writeBuf.instruction bound.named
      rw [passExecuted] at unanswered
      rw [unanswered] at answered
      cases answered
  | replied buf reply admitted accepted =>
      obtain ⟨pc, code, address⟩ := read_buf_fields _ _ buf reply
      rw [afterRead]
      split
      · exact .left 0 _ rfl (if_pos admitted).symm
      · rename_i within
        cases labelled : textAt text (instructionIndex st.readBuf.pc) with
        | none =>
            refine .fault fun bound => ?_
            have position := ready.position
            have inside := fetched_in_memory _ _ _ ready.fetched
            rw [← position] at inside
            have texts := bound.texts
            rw [instruction_index_in_memory _ inside] at within labelled
            rw [text_at_index, List.getElem?_eq_none_iff] at labelled
            omega
        | some line =>
            have switched := serve_switched env.read.input st.ctx.cpu (consumeStep st.board) st.writeBuf.instruction env
              (print (.executed line) (passReplied env st buf)) ⟨rfl, code, address, accepted, ready.isInstruction⟩ data
            dsimp only
            generalize serve env _ = served at switched ⊢
            cases switched with
            | left ret final quiet same =>
                refine .left ret final quiet ?_
                rw [same, cpuAfter, if_pos admitted]
                rfl
            | fault unnamed => exact .fault fun bound => unnamed bound.named
            | went after same buffered mode recorded =>
                refine refetch_passed text count env st after fetch ?_ same mode recorded
                rw [buffered, same]
                exact pc

end Step

-- The passes begun up to the k-th. Each starts in a state of the run, holding
-- the instruction that memory has at its pc, and the next pc is the one that
-- executing it leaves.
structure Begun (envs : Nat → IterEnv) (run : Nat → LoopStep) (k : Nat) (passes : List Pass) : Prop where
  count : passes.length = k + 1
  first : passes.head?.map Pass.pc = some 0
  held : ∀ j pass, passes[j]? = some pass → ∃ st, run j = .running st ∧ st.ctx.cpu.pc = pass.pc ∧
    fetchNext st.memory pass.pc = some pass.instr ∧ st.writeBuf.instruction = pass.instr ∧
    ∀ next, passes[j + 1]? = some next → next.pc = (passExecuted (envs j) st).cpu.pc

def currentPass (st : RunState) : Pass := ⟨st.ctx.cpu.pc, st.writeBuf.instruction⟩

section Loop

variable (text : List (List Char)) (count : Int) (envs : Nat → IterEnv)

theorem start_recorded (opening : OpenEnv) (board : Board) (memory : Memory) (opens : Opens opening)
    (traced : 0 ≤ opening.firstTrace) :
    ∃ st, runStart opening board memory = .running st ∧ Ready st (view st.ctx.cpu st.memory) ∧ st.ctx.cpu.pc = 0 ∧
      st.trace = [⟨0, 0⟩] := by
  have inside : (0 : U64).toNat + 10 < memSize := by decide
  simp only [runStart]
  simp only [device_opened opening board opens, if_neg (Int.not_lt.mpr opens.collector), fetchNext, if_pos inside]
  refine ⟨_, rfl, ⟨rfl, ?_, ?_, ?_⟩, ?_, ?_⟩
  · simp [view, freshContext]
  · simp
  · simp [view, freshContext, fetchNext, memSize]
  · simp [freshContext]
  · rw [trace_fetch_trace _ _ traced]
    rfl

theorem begun_snoc (run : Nat → LoopStep) (k : Nat) (passes : List Pass) (st next : RunState)
    (begun : Begun envs run k (passes ++ [currentPass st])) (current : run k = .running st) (later : run (k + 1) = .running next)
    (ready : Ready next (view next.ctx.cpu next.memory)) (pc : next.ctx.cpu.pc = (passExecuted (envs k) st).cpu.pc) :
    Begun envs run (k + 1) (passes ++ [currentPass st, currentPass next]) where
  count := by
    have count := begun.count
    simp only [List.length_append, List.length_cons, List.length_nil] at count ⊢
    omega
  first := by
    have first := begun.first
    cases passes with
    | nil => exact first
    | cons head rest => exact first
  held := by
    have length : (passes ++ [currentPass st]).length = k + 1 := begun.count
    have split : passes ++ [currentPass st, currentPass next] = (passes ++ [currentPass st]) ++ [currentPass next] := by
      rw [List.append_assoc, List.cons_append, List.nil_append]
    intro j pass found
    rw [split] at found ⊢
    rcases (get_snoc _ _ _ _).mp found with old | ⟨last, rfl⟩
    · obtain ⟨there, reached, position, fetched, held, follows⟩ := begun.held j pass old
      refine ⟨there, reached, position, fetched, held, fun after following => ?_⟩
      rcases (get_snoc _ _ _ _).mp following with inside | ⟨last, rfl⟩
      · exact follows after inside
      · obtain rfl : j = k := by omega
        obtain rfl := Progress.running.inj (reached.symm.trans current)
        exact pc
    · rw [length] at last
      subst last
      refine ⟨next, later, rfl, ready.fetched, rfl, fun after following => ?_⟩
      have inside := get_inside _ _ _ following
      simp only [List.length_append, List.length_singleton] at inside length
      omega

theorem loop_records (opening : OpenEnv) (board : Board) (memory : Memory) (opens : Opens opening)
    (first : 0 ≤ opening.firstTrace) (traced : ∀ k, 0 ≤ (envs k).dataTrace ∧ 0 ≤ (envs k).fetchTrace) (k : Nat)
    (st : RunState) (current : runLoop text count envs (runStart opening board memory) k = .running st) :
    Ready st (view st.ctx.cpu st.memory) ∧
      ∃ passes, Begun envs (runLoop text count envs (runStart opening board memory)) k (passes ++ [currentPass st]) ∧
        st.trace = accessRecords (passes ++ [currentPass st]) := by
  induction k generalizing st with
  | zero =>
      obtain ⟨start, started, ready, zero, trace⟩ := start_recorded opening board memory opens first
      obtain rfl : start = st := Progress.running.inj (started.symm.trans current)
      refine ⟨ready, [], ⟨rfl, congrArg some zero, fun j pass found => ?_⟩, ?_⟩
      · cases j with
        | zero =>
            obtain rfl := Option.some.inj found
            exact ⟨start, current, rfl, ready.fetched, rfl, fun next following => by cases following⟩
        | succ j => cases found
      · rw [trace, List.nil_append, accessRecords, currentPass, zero]
  | succ k ih =>
      obtain ⟨before, reached, stepped⟩ := Progress.iterate_running_before _ _ k st current
      obtain ⟨ready, passes, begun, trace⟩ := ih before reached
      have passed := pass_passed text count (envs k) before ready (traced k).1 (traced k).2
      rw [stepped] at passed
      cases passed with
      | went next readyNext pc recorded =>
          refine ⟨readyNext, passes ++ [currentPass before], ?_, ?_⟩
          · rw [List.append_assoc]
            exact begun_snoc envs _ k passes before st begun reached current readyNext pc
          · rw [List.append_assoc]
            calc st.trace
                = before.trace ++ dataRecord before.writeBuf.instruction ++ [⟨st.ctx.cpu.pc, 0⟩] := recorded
              _ = accessRecords (passes ++ [currentPass before]) ++ dataRecord (currentPass before).instr ++
                    [⟨(currentPass st).pc, 0⟩] := by rw [trace]; rfl
              _ = accessRecords (passes ++ [currentPass before, currentPass st]) :=
                (access_records_snoc passes (currentPass before) (currentPass st)).symm

end Loop

-- MOV R0, [0x1000] at address 0 and ADD R0, 0 everywhere after it.
def loadImage : Memory
  | 0 => Opcode.mov.code
  | 1 => Mode.directLoad.code
  | 4 => 0x10
  | _ => 0

def executedPasses (env : IterEnv) (passes : List Pass) : List Pass := if Admitted env then passes else passes.dropLast

end CpuEmulator.Userspace
