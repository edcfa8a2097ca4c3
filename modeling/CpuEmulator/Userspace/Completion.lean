import CpuEmulator.Userspace.Main
import CpuEmulator.Userspace.Records
import CpuEmulator.Userspace.Confinement

set_option autoImplicit false

namespace CpuEmulator.Userspace

open Library Driver

section Pass

variable (text : List (List Char)) (count : Int) (env : IterEnv) (st : RunState)

inductive StopsShort : Prop where
  | notSent (failed : env.writeFault = true)
  | notRead (failed : env.read.wait ≠ 0 ∨ env.read.copyFault = true)
  | rejected (executed : Admitted env) (code : (passExecuted env st).ret = -einval)
  | leftProgram (outside : count ≤ instructionIndex st.readBuf.pc)

structure Unbroken : Prop where
  sent : env.writeFault = false
  woken : env.read.wait = 0
  copied : env.read.copyFault = false
  accepted : accepts st.ctx.cpu st.writeBuf.instruction = true ∨ Halts st.writeBuf.instruction
  inProgram : instructionIndex st.readBuf.pc < count

theorem unbroken_iff : Unbroken count env st ↔ ¬ StopsShort count env st := by
  have checks := rejected_iff env.read.input st.ctx.cpu (consumeStep st.board) st.writeBuf.instruction
  constructor
  · intro whole stops
    cases stops with
    | notSent failed => exact absurd (failed.symm.trans whole.sent) (by decide)
    | notRead failed =>
        cases failed with
        | inl slept => exact slept whole.woken
        | inr lost => exact absurd (lost.symm.trans whole.copied) (by decide)
    | rejected _ code => exact checks.mp code whole.accepted
    | leftProgram outside => exact Int.not_lt.mpr outside whole.inProgram
  · intro goes
    have sent : env.writeFault = false := Bool.eq_false_iff.mpr fun failed => goes (.notSent failed)
    have woken : env.read.wait = 0 := by
      by_contra slept
      exact goes (.notRead (Or.inl slept))
    refine ⟨sent, woken, Bool.eq_false_iff.mpr fun lost => goes (.notRead (Or.inr lost)), ?_, ?_⟩
    · by_contra rejected
      exact goes (.rejected ⟨sent, woken⟩ (checks.mpr rejected))
    · exact Int.not_le.mp fun outside => goes (.leftProgram outside)

-- How a pass leaves the loop. Every break returns 0, as HALT does.
inductive Leaves : LoopStep → Prop where
  | fault : Leaves (.stopped .fault)
  | broke (final : RunState) (stops : StopsShort count env st) : Leaves (.stopped (.exit 0 final))
  | halted (final : RunState) (whole : ¬ StopsShort count env st) (code : (passExecuted env st).ret = execHalt) :
      Leaves (.stopped (.exit 0 final))
  | unknown (final : RunState) (whole : ¬ StopsShort count env st) (code : (passExecuted env st).ret ≠ execHalt) :
      Leaves (.stopped (.exit (-1) final))
  | goesOn (next : RunState) (whole : ¬ StopsShort count env st) : Leaves (.running next)

theorem serve_leaves (asked : RunState) (whole : ¬ StopsShort count env st)
    (code : asked.readBuf.execReturn = (passExecuted env st).ret) : Leaves count env st (serve env asked) := by
  by_cases halted : (passExecuted env st).ret = execHalt
  · rw [serve_halt env asked (code.trans halted)]
    exact .halted asked whole halted
  · rw [← code] at halted
    simp only [serve, if_neg halted]
    split
    · exact .goesOn _ whole
    · split
      · split
        · exact .fault
        · split
          · exact .fault
          · exact .goesOn _ whole
      · split
        · split
          · exact .fault
          · exact .goesOn _ whole
        · split
          · exact .goesOn _ whole
          · exact .unknown _ whole (fun halts => halted (code.trans halts))

theorem labelled_leaves (buf : ReadValue) (reply : readBuf (passExecuted env st).cpu (passExecuted env st).ret = some buf)
    (admitted : Admitted env) (copied : env.read.copyFault = false) (accepted : (passExecuted env st).ret ≠ -einval) :
    Leaves count env st (labelled text count env (instructionIndex st.readBuf.pc) (passReplied env st buf)) := by
  rw [labelled]
  by_cases outside : count ≤ instructionIndex st.readBuf.pc
  · rw [if_pos outside]
    exact .broke _ (.leftProgram outside)
  · rw [if_neg outside]
    cases textAt text (instructionIndex st.readBuf.pc) with
    | none => exact .fault
    | some line =>
        refine serve_leaves count env st _ (fun stops => ?_) (read_buf_fields _ _ _ reply).2.1
        cases stops with
        | notSent failed => exact absurd (failed.symm.trans admitted.1) (by decide)
        | notRead failed =>
            cases failed with
            | inl slept => exact slept admitted.2
            | inr lost => exact absurd (lost.symm.trans copied) (by decide)
        | rejected _ code => exact accepted code
        | leftProgram past => exact outside past

theorem before_fetch_leaves (mode : st.writeBuf.isInstruction = 1) : Leaves count env st (beforeFetch text count env st) := by
  simp only [beforeFetch]
  cases faulted : env.writeFault with
  | true => exact .broke _ (.notSent faulted)
  | false =>
      rw [instruction_written _ _ _ mode]
      dsimp only
      rw [if_neg (by decide)]
      have read := pass_read env st
      generalize cpuRead env.read st.board _ sizeofReadValue = got at read ⊢
      cases read with
      | slept asleep => exact .broke _ (.notRead (Or.inl asleep))
      | rejected woken code => exact .broke _ (.rejected ⟨faulted, woken⟩ code)
      | unanswered => exact .fault
      | lost _ _ uncopied => exact .broke _ (.notRead (Or.inr uncopied))
      | replied buf woken accepted copied reply =>
          exact labelled_leaves text count env st buf reply ⟨faulted, woken⟩ copied accepted

theorem pass_leaves (mode : st.writeBuf.isInstruction = 1) : Leaves count env st (runIteration text count env st) := by
  have leaves := before_fetch_leaves text count env st mode
  rw [run_iteration_fetches]
  generalize beforeFetch text count env st = before at leaves ⊢
  cases leaves with
  | fault => exact .fault
  | broke final stops => exact .broke final stops
  | halted final whole code => exact .halted final whole code
  | unknown final whole code => exact .unknown final whole code
  | goesOn next whole =>
      rw [Progress.bind, refetch]
      cases fetchNext next.memory next.readBuf.pc with
      | none => exact .fault
      | some instr => exact .goesOn _ whole

end Pass

def lastReturned (envs : Nat → IterEnv) (run : Nat → LoopStep) : Nat → Option Int
  | 0 => none
  | k + 1 =>
      match run k with
      | .running st =>
          if Admitted (envs k) then some (passExecuted (envs k) st).ret else lastReturned envs run k
      | .stopped _ => lastReturned envs run k

structure ReportsCompletion (count : Int) (envs : Nat → IterEnv) (run : Nat → LoopStep) (k : Nat) (ret : Int) : Prop where
  completed : ret = 0 ↔ lastReturned envs run k = some execHalt
  unopened : (∃ ending, run 0 = .stopped ending) → ret ≠ 0
  stopped : ∀ j st, j < k → run j = .running st → StopsShort count (envs j) st → ret ≠ 0

theorem last_returned_stays (envs : Nat → IterEnv) (run : Nat → LoopStep) (j k : Nat) (reached : j ≤ k)
    (ended : ∀ i, j ≤ i → ∃ ending, run i = .stopped ending) : lastReturned envs run k = lastReturned envs run j := by
  induction reached with
  | refl => rfl
  | step reached ih =>
      obtain ⟨ending, left⟩ := ended _ reached
      rw [lastReturned, left]
      exact ih

section Loop

variable (text : List (List Char)) (count : Int) (envs : Nat → IterEnv) (opening : OpenEnv) (board : Board) (memory : Memory)

theorem failed_open_returns (ret : Int) (final : RunState)
    (ended : runStart opening board memory = .stopped (.exit ret final)) : ret ≠ 0 := by
  simp only [runStart] at ended
  split at ended
  · cases ended
    decide
  · split at ended
    · rename_i missing
      cases ended
      exact Int.ne_of_lt missing
    · split at ended <;> cases ended

variable (k : Nat) (ret : Int) (final : RunState)
  (ended : runLoop text count envs (runStart opening board memory) k = .stopped (.exit ret final))

include ended

theorem short_stop_returns (j : Nat) (st : RunState) (before : j < k)
    (reached : runLoop text count envs (runStart opening board memory) j = .running st)
    (stops : StopsShort count (envs j) st) : ret = 0 := by
  have leaves := pass_leaves text count (envs j) st (run_holds text count envs opening board memory j st reached).mode
  have passed : runLoop text count envs (runStart opening board memory) (j + 1) = runIteration text count (envs j) st :=
    Progress.iterate_from_running _ _ j st reached
  have stays (ending : LoopEnd) (left : runIteration text count (envs j) st = .stopped ending) : ending = .exit ret final :=
    Progress.stopped.inj ((Progress.iterate_stays _ _ (j + 1) k ending before (passed.trans left)).symm.trans ended)
  generalize runIteration text count (envs j) st = pass at leaves stays
  cases leaves with
  | fault => cases stays _ rfl
  | broke last _ =>
      cases stays _ rfl
      rfl
  | halted _ whole _ | unknown _ whole _ | goesOn _ whole => exact absurd stops whole

theorem unbroken_return (whole : ∀ j st, j < k → runLoop text count envs (runStart opening board memory) j = .running st →
    ¬ StopsShort count (envs j) st) :
    ret = 0 ↔ lastReturned envs (runLoop text count envs (runStart opening board memory)) k = some execHalt := by
  obtain unopened | ⟨j, st, before, reached, left⟩ := Progress.iterate_stopped_by _ _ k _ ended
  · have nothing := last_returned_stays envs (runLoop text count envs (runStart opening board memory)) 0 k (Nat.zero_le k)
      fun i _ => ⟨_, Progress.iterate_stays _ _ 0 i _ (Nat.zero_le i) unopened⟩
    rw [nothing]
    exact iff_of_false (failed_open_returns opening board memory ret final unopened) (fun some => by cases some)
  · have passed : runLoop text count envs (runStart opening board memory) (j + 1) = .stopped (.exit ret final) :=
      (Progress.iterate_from_running _ _ j st reached).trans left
    have last := last_returned_stays envs (runLoop text count envs (runStart opening board memory)) (j + 1) k before
      fun i after => ⟨_, Progress.iterate_stays _ _ (j + 1) i _ after passed⟩
    have goes := whole j st before reached
    have admitted : Admitted (envs j) :=
      have unbroken := (unbroken_iff count (envs j) st).mpr goes
      ⟨unbroken.sent, unbroken.woken⟩
    have executed : runLoop text count envs (runStart opening board memory) j = .running st := reached
    rw [last, lastReturned, executed]
    dsimp only
    rw [if_pos admitted]
    have leaves := pass_leaves text count (envs j) st (run_holds text count envs opening board memory j st reached).mode
    rw [left] at leaves
    cases leaves with
    | broke _ stops => exact absurd stops goes
    | halted _ _ code => exact iff_of_true rfl (congrArg some code)
    | unknown _ _ code => exact iff_of_false (by decide) (fun same => code (Option.some.inj same))

-- The return code is right exactly when the loop is left by none of its breaks:
-- they all end in the return 0 behind the label.
theorem completion_reported_iff : ReportsCompletion count envs (runLoop text count envs (runStart opening board memory)) k ret ↔
    ∀ j st, j < k → runLoop text count envs (runStart opening board memory) j = .running st → Unbroken count (envs j) st := by
  constructor
  · intro reports j st before reached
    rw [unbroken_iff]
    intro stops
    exact reports.stopped j st before reached stops
      (short_stop_returns text count envs opening board memory k ret final ended j st before reached stops)
  · intro whole
    refine ⟨?_, ?_, ?_⟩
    · exact unbroken_return text count envs opening board memory k ret final ended
        fun j st before reached => (unbroken_iff count (envs j) st).mp (whole j st before reached)
    · rintro ⟨ending, unopened⟩
      have same := Progress.iterate_stays _ _ 0 k ending (Nat.zero_le k) unopened
      rw [← runLoop, ended] at same
      cases same
      exact failed_open_returns opening board memory ret final unopened
    · intro j st before reached stops
      exact absurd stops ((unbroken_iff count (envs j) st).mp (whole j st before reached))

end Loop

-- JMP L, with the HALT behind the label.
def jumpImage (i : Nat) : U8 :=
  if i < instrSize then encodedByte ⟨1, Assembler.uint8Max, Opcode.jmp.code, Mode.label.code⟩ i else encodedByte haltInstr (i - instrSize)

theorem completion_reported_iff_jump :
    ∃ final, runLoop [['j'], ['h']] 2 (fun _ => pressedEnv) (runStart startedOpening darkBoard jumpImage) 2 = .stopped (.exit 0 final) ∧
      ReportsCompletion 2 (fun _ => pressedEnv)
        (runLoop [['j'], ['h']] 2 (fun _ => pressedEnv) (runStart startedOpening darkBoard jumpImage)) 2 0 := by
  have passes : ∃ jump halt final,
      (runLoop [['j'], ['h']] 2 (fun _ => pressedEnv) (runStart startedOpening darkBoard jumpImage) 0 = .running jump ∧
        runLoop [['j'], ['h']] 2 (fun _ => pressedEnv) (runStart startedOpening darkBoard jumpImage) 1 = .running halt ∧
        runLoop [['j'], ['h']] 2 (fun _ => pressedEnv) (runStart startedOpening darkBoard jumpImage) 2 = .stopped (.exit 0 final)) ∧
      Unbroken 2 pressedEnv jump ∧ Unbroken 2 pressedEnv halt :=
    ⟨_, _, _, ⟨rfl, rfl, rfl⟩, ⟨rfl, rfl, rfl, Or.inl rfl, by decide⟩, ⟨rfl, rfl, rfl, Or.inr ⟨rfl, rfl, rfl⟩, by decide⟩⟩
  obtain ⟨jump, halt, final, ⟨first, second, ended⟩, jumps, halts⟩ := passes
  refine ⟨final, ended, (completion_reported_iff [['j'], ['h']] 2 (fun _ => pressedEnv) startedOpening darkBoard jumpImage 2 0 final
    ended).mpr fun j next before reached => ?_⟩
  obtain rfl | rfl : j = 0 ∨ j = 1 := by omega
  · obtain rfl := Progress.running.inj (first.symm.trans reached)
    exact jumps
  · obtain rfl := Progress.running.inj (second.symm.trans reached)
    exact halts

-- A load from an MMIO address with no device behind it.
def rejectedSource : Assembler.SourceFile :=
  ⟨['M', 'O', 'V', ' ', 'R', '0', ',', ' ', '[', 'F', 'F', 'F', '1', ']', '\n'], by decide⟩

-- The driver rejects the first instruction and main goes on to the cache
-- simulation.
theorem rejected_program_reported_complete :
    ∃ program final, Assembler.parseAssembly freeMemory (some rejectedSource) = .ok program ∧
      runLoop (loaded program).text (loaded program).count (fun _ => pressedEnv)
        (runStart startedOpening darkBoard (loaded program).memory) 1 = .stopped (.exit 0 final) ∧
      ¬ ReportsCompletion (loaded program).count (fun _ => pressedEnv) (runLoop (loaded program).text (loaded program).count
        (fun _ => pressedEnv) (runStart startedOpening darkBoard (loaded program).memory)) 1 0 ∧
      mainAfter freeMemory (some rejectedSource) startedOpening darkBoard (fun _ => pressedEnv) 1 = .exited exitSuccess true := by
  refine ⟨_, _, rfl, rfl, fun reports => ?_, rfl⟩
  have last := reports.completed.mp rfl
  have rejected : some (-einval) = some execHalt := last
  exact absurd rejected (by decide)

end CpuEmulator.Userspace
