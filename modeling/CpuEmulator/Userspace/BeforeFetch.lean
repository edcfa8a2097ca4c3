import CpuEmulator.Userspace.LoopRefinement

set_option autoImplicit false

namespace CpuEmulator.Userspace

open Library Driver

def labelled (text : List (List Char)) (count : Int) (env : IterEnv) (i : Int) (st : RunState) : LoopStep :=
  if count ≤ i then .stopped (.exit 0 (print .countExceeded st))
  else
    match textAt text i with
    | none => .stopped .fault
    | some line => serve env (print (.executed line) st)

def beforeFetch (text : List (List Char)) (count : Int) (env : IterEnv) (st : RunState) : LoopStep :=
  let i := instructionIndex st.readBuf.pc
  match cpuWrite st.board st.ctx sizeofWriteValue env.writeFault st.writeBuf with
  | none => .stopped .fault
  | some written =>
      let sent := { st with board := written.board, ctx := written.ctx }
      if written.ret < 0 then .stopped (.exit 0 (print (.checkKernelLogs (-written.ret)) sent))
      else
        match cpuRead env.read sent.board sent.ctx sizeofReadValue with
        | none => .stopped .fault
        | some got =>
            let executed := { sent with board := got.board, ctx := got.ctx }
            if got.ret < 0 then .stopped (.exit 0 (print (.checkKernelLogs (-got.ret)) executed))
            else labelled text count env i { executed with readBuf := got.buf.getD executed.readBuf }

theorem after_read_fetches (text : List (List Char)) (count : Int) (env : IterEnv) (i : Int) (st : RunState) :
    afterRead text count env i st = (labelled text count env i st).bind (refetch env) := by
  simp only [afterRead, labelled]
  split
  · rfl
  · cases textAt text i with
    | none => rfl
    | some line => rfl

theorem run_iteration_fetches (text : List (List Char)) (count : Int) (env : IterEnv) (st : RunState) :
    runIteration text count env st = (beforeFetch text count env st).bind (refetch env) := by
  simp only [runIteration, beforeFetch]
  cases cpuWrite st.board st.ctx sizeofWriteValue env.writeFault st.writeBuf with
  | none => rfl
  | some written =>
      dsimp only
      split
      · rfl
      · cases cpuRead env.read written.board written.ctx sizeofReadValue with
        | none => rfl
        | some got =>
            dsimp only
            split
            · rfl
            · exact after_read_fetches text count env _ _

section Step

variable (text : List (List Char)) (count : Int) (env : IterEnv) (st : RunState)

-- The device takes the instruction and wakes the reader, so it is executed.
def Admitted : Prop := env.writeFault = false ∧ env.read.wait = 0

instance : Decidable (Admitted env) := inferInstanceAs (Decidable (_ ∧ _))

def cpuAfter : MyCpu := if Admitted env then (passExecuted env st).cpu else st.ctx.cpu

inductive Driven : LoopStep → Prop where
  | left (ret : Int) (final : RunState) (quiet : final.trace = st.trace)
      (executed : final.ctx.cpu = cpuAfter env st)
      (ended : ¬ (Admitted env ∧ env.read.copyFault = false ∧ (passExecuted env st).ret ≠ -einval)) :
      Driven (.stopped (.exit ret final))
  | fault (unanswered : readBuf (passExecuted env st).cpu (passExecuted env st).ret = none) : Driven (.stopped .fault)
  | replied (buf : ReadValue) (reply : readBuf (passExecuted env st).cpu (passExecuted env st).ret = some buf)
      (admitted : Admitted env) (copied : env.read.copyFault = false) (accepted : (passExecuted env st).ret ≠ -einval) :
      Driven (labelled text count env (instructionIndex st.readBuf.pc) (passReplied env st buf))

theorem before_fetch_driven (mode : st.writeBuf.isInstruction = 1) :
    Driven text count env st (beforeFetch text count env st) := by
  simp only [beforeFetch]
  cases faulted : env.writeFault with
  | true =>
      have refused : ¬ Admitted env := fun admitted => by
        rw [admitted.1] at faulted
        cases faulted
      exact .left 0 _ rfl (if_neg refused).symm fun all => refused all.1
  | false =>
      rw [instruction_written _ _ _ mode]
      dsimp only
      rw [if_neg (by decide)]
      have read := pass_read env st
      generalize cpuRead env.read st.board _ sizeofReadValue = got at read ⊢
      cases read with
      | slept asleep =>
          exact .left 0 _ rfl (if_neg fun admitted : Admitted env => asleep admitted.2).symm fun all => asleep all.1.2
      | rejected woken code => exact .left 0 _ rfl (if_pos ⟨faulted, woken⟩).symm fun all => all.2.2 code
      | unanswered reply => exact .fault reply
      | lost woken _ uncopied =>
          refine .left 0 _ rfl (if_pos ⟨faulted, woken⟩).symm fun all => ?_
          rw [uncopied] at all
          cases all.2.1
      | replied buf woken accepted copied reply => exact .replied buf reply ⟨faulted, woken⟩ copied accepted

end Step

end CpuEmulator.Userspace
