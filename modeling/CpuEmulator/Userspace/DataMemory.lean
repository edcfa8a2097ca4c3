import CpuEmulator.Userspace.Confinement

set_option autoImplicit false

namespace CpuEmulator.Userspace

open Library Driver Isa

def atSwitch (text : List (List Char)) (count : Int) (env : IterEnv) (st : RunState) : Option RunState :=
  let i := instructionIndex st.readBuf.pc
  match cpuWrite st.board st.ctx sizeofWriteValue env.writeFault st.writeBuf with
  | none => none
  | some written =>
      let sent := { st with board := written.board, ctx := written.ctx }
      if written.ret < 0 then none
      else
        match cpuRead env.read sent.board sent.ctx sizeofReadValue with
        | none => none
        | some got =>
            let executed := { sent with board := got.board, ctx := got.ctx }
            if got.ret < 0 ∨ count ≤ i then none
            else (textAt text i).map fun line =>
              print (.executed line) { executed with readBuf := got.buf.getD executed.readBuf }

def accessedAddress (text : List (List Char)) (count : Int) (env : IterEnv) (st : RunState) : Option U64 :=
  (atSwitch text count env st).bind fun asked =>
    if asked.readBuf.execReturn = execPendingMemRead ∨ asked.readBuf.execReturn = execPendingMemWrite then
      some asked.readBuf.memAddr
    else none

structure Store where
  address : U64
  value : U64

def DirectAs (mode : Mode) (instr : Instruction) : Prop := PlainDirect instr ∧ modeOf instr.mode = some mode

instance (mode : Mode) (instr : Instruction) : Decidable (DirectAs mode instr) := inferInstanceAs (Decidable (_ ∧ _))

def storeOf (st : RunState) : Option Store :=
  if DirectAs .directStore st.writeBuf.instruction then
    (getRegister (st.writeBuf.instruction.operand1.setWidth 64)).map fun reg =>
      ⟨st.writeBuf.instruction.operand2, st.ctx.cpu.regs reg⟩
  else none

def storesBefore (run : Nat → LoopStep) : Nat → List Store
  | 0 => []
  | k + 1 => storesBefore run k ++
      match run k with
      | .running st => (storeOf st).toList
      | .stopped _ => []

-- Byte x of a memory that began as image: it comes from the last store that
-- covers x.
def storedByte (image : Memory) (stores : List Store) (x : Nat) : U8 :=
  overwritten image 8 (stores.map fun store => (store.address.toNat, leByte store.value)) x

section Pass

variable (text : List (List Char)) (count : Int) (env : IterEnv) (st : RunState)

inductive Switches : LoopStep → Option RunState → Prop where
  | left (ending : LoopEnd) : Switches (.stopped ending) none
  | reached (buf : ReadValue) (line : List Char)
      (reply : readBuf (passExecuted env st).cpu (passExecuted env st).ret = some buf)
      (accepted : (passExecuted env st).ret ≠ -einval) :
      Switches (serve env (print (.executed line) (passReplied env st buf)))
        (some (print (.executed line) (passReplied env st buf)))

theorem pass_switches (mode : st.writeBuf.isInstruction = 1) :
    Switches env st (beforeFetch text count env st) (atSwitch text count env st) := by
  simp only [beforeFetch, atSwitch]
  cases env.writeFault with
  | true => exact .left _
  | false =>
      rw [instruction_written _ _ _ mode]
      dsimp only
      rw [if_neg (by decide), if_neg (by decide)]
      have read := pass_read env st
      generalize cpuRead env.read st.board _ sizeofReadValue = got at read ⊢
      cases read with
      | slept | rejected | unanswered | lost => exact .left _
      | replied buf woken accepted copied reply =>
          have positive : ¬ ((sizeofReadValue : Int) < 0) := by decide
          simp only [labelled, if_neg positive]
          by_cases outside : count ≤ instructionIndex st.readBuf.pc
          · rw [if_pos outside, if_pos (Or.inr outside)]
            exact .left _
          · rw [if_neg outside, if_neg (not_or.mpr ⟨positive, outside⟩)]
            cases textAt text (instructionIndex st.readBuf.pc) with
            | none => exact .left _
            | some line => exact .reached buf line reply accepted

end Pass

section Serving

variable (env : IterEnv) (asked after : RunState)

theorem unrequested_memory (read : asked.readBuf.execReturn ≠ execPendingMemRead)
    (write : asked.readBuf.execReturn ≠ execPendingMemWrite) (served : serve env asked = .running after) :
    after.memory = asked.memory := by
  simp only [serve, if_neg read, if_neg write] at served
  split at served
  · rw [← Progress.running.inj served]
  · split at served
    · cases served
    · split at served
      · rw [← Progress.running.inj served]
        rfl
      · cases served

theorem store_memory (code : asked.readBuf.execReturn = execPendingMemWrite) (plain : asked.readBuf.memAddr < dataLimit)
    (served : serve env asked = .running after) :
    after.memory = writeCells asked.memory asked.readBuf.memAddr.toNat (leByte asked.readBuf.val) 8 := by
  obtain ⟨other, running, memory, _⟩ := serve_mem_write env asked code plain
  rw [← Progress.running.inj (running.symm.trans served), memory]

theorem load_memory (code : asked.readBuf.execReturn = execPendingMemRead) (plain : asked.readBuf.memAddr < dataLimit)
    (served : serve env asked = .running after) : after.memory = asked.memory := by
  rw [serve, code] at served
  simp only [readFromMemory, if_pos (plain_address_in_memory _ plain)] at served
  cases replied : cpuWrite asked.board asked.ctx sizeofWriteValue env.dataFault
      { asked.writeBuf with
        isInstruction := 0
        val := leWord 64 (fun i => asked.memory (asked.readBuf.memAddr.toNat + i)) 8 } with
  | none =>
      rw [replied] at served
      cases served
  | some reply =>
      rw [replied] at served
      rw [← Progress.running.inj served]
      simp

-- The value goes to the client's buffer first and from there, unless the write
-- fails, to the register.
theorem load_delivers (reg : Fin 4) (code : asked.readBuf.execReturn = execPendingMemRead)
    (plain : asked.readBuf.memAddr < dataLimit)
    (named : getRegister (asked.ctx.cpu.pendingRegIdx.setWidth 64) = some reg) :
    ∃ after, serve env asked = .running after ∧
      after.writeBuf.val = leWord 64 (fun i => asked.memory (asked.readBuf.memAddr.toNat + i)) 8 ∧
      (env.dataFault = false → after.ctx.cpu.regs reg = after.writeBuf.val) := by
  rw [serve, code]
  simp only [readFromMemory, if_pos (plain_address_in_memory _ plain)]
  cases env.dataFault with
  | true => exact ⟨_, rfl, by simp, fun delivered => by cases delivered⟩
  | false =>
      rw [data_written _ _ _ reg rfl named]
      exact ⟨_, rfl, by simp, fun _ => by simp [MyCpu.setReg]⟩

end Serving

theorem not_direct (input : Int) (cpu : MyCpu) (board : Board) (instr : Instruction) (mode : Mode)
    (read : (executeInstruction input cpu board instr).ret ≠ execPendingMemRead)
    (write : (executeInstruction input cpu board instr).ret ≠ execPendingMemWrite) : ¬ DirectAs mode instr := by
  rintro ⟨plain, _⟩
  obtain ⟨ret, executed, pending⟩ := plain_direct_executes input cpu board instr plain
  rw [executed] at read write
  exact pending.elim read write

theorem plain_below_limit (instr : Instruction) (plain : PlainDirect instr) : instr.operand2 < dataLimit := by
  have mmio := plain.2.2
  rw [is_mmio_plain, Bool.not_eq_false'] at mmio
  exact of_decide_eq_true mmio

theorem plain_below_input (instr : Instruction) (plain : PlainDirect instr) :
    instr.operand2.toNat + 7 < mmioInput.toNat := by
  have bound : instr.operand2.toNat < 65520 := BitVec.lt_def.mp (plain_below_limit instr plain)
  have input : mmioInput.toNat = 65533 := by decide
  omega

section Pass

variable (text : List (List Char)) (count : Int) (env : IterEnv) (st : RunState)

inductive Treats (asked : RunState) : Prop where
  | leaves (read : asked.readBuf.execReturn ≠ execPendingMemRead) (write : asked.readBuf.execReturn ≠ execPendingMemWrite)
      (load : ¬ DirectAs .directLoad st.writeBuf.instruction) (store : ¬ DirectAs .directStore st.writeBuf.instruction)
  | loads (code : asked.readBuf.execReturn = execPendingMemRead) (load : DirectAs .directLoad st.writeBuf.instruction)
      (address : asked.readBuf.memAddr = st.writeBuf.instruction.operand2)
      (register : asked.ctx.cpu.pendingRegIdx = st.writeBuf.instruction.operand1)
  | stores (code : asked.readBuf.execReturn = execPendingMemWrite) (store : DirectAs .directStore st.writeBuf.instruction)
      (address : asked.readBuf.memAddr = st.writeBuf.instruction.operand2)
      (value : storeOf st = some ⟨asked.readBuf.memAddr, asked.readBuf.val⟩)

theorem direct_mode (one other : Mode) (instr : Instruction) (first : DirectAs one instr) (second : DirectAs other instr) :
    one = other := Option.some.inj (first.2.symm.trans second.2)

theorem reply_treats (buf : ReadValue) (line : List Char)
    (reply : readBuf (passExecuted env st).cpu (passExecuted env st).ret = some buf) :
    Treats st (print (.executed line) (passReplied env st buf)) := by
  obtain ⟨_, code, address⟩ := read_buf_fields _ _ buf reply
  have effect := execute_effect env.read.input st.ctx.cpu (consumeStep st.board) st.writeBuf.instruction
  have never := fun mode => not_direct env.read.input st.ctx.cpu (consumeStep st.board) st.writeBuf.instruction mode
  have executed : (print (.executed line) (passReplied env st buf)).ctx.cpu = (passExecuted env st).cpu := rfl
  change buf.execReturn = _ at code
  simp only [passExecuted] at reply code address executed
  generalize executeInstruction env.read.input st.ctx.cpu (consumeStep st.board) st.writeBuf.instruction = done at *
  have leaves (read : done.ret ≠ execPendingMemRead) (write : done.ret ≠ execPendingMemWrite) :
      Treats st (print (.executed line) (passReplied env st buf)) := by
    refine .leaves ?_ ?_ (never _ read write) (never _ read write)
    · exact fun pending => read (code.symm.trans pending)
    · exact fun pending => write (code.symm.trans pending)
  cases effect with
  | rejected | halted | computed | jumped | mmioRead =>
      exact leaves (fun pending => by cases pending) (fun pending => by cases pending)
  | load plain mode =>
      refine .loads code ⟨plain, mode⟩ (address (Or.inl rfl)) ?_
      rw [executed]
      rfl
  | store plain mode =>
      have asked := address (Or.inr rfl)
      obtain ⟨reg, found, same⟩ := Option.map_eq_some_iff.mp reply
      refine .stores code ⟨plain, mode⟩ asked ?_
      rw [storeOf, if_pos ⟨plain, mode⟩]
      change getRegister (st.writeBuf.instruction.operand1.setWidth 64) = some reg at found
      rw [found, ← same]
      rfl

variable (mode : st.writeBuf.isInstruction = 1)

include mode

theorem accessed_address_in_range (address : U64) (accessed : accessedAddress text count env st = some address) :
    address.toNat + 7 < mmioInput.toNat := by
  have switches := pass_switches text count env st mode
  rw [accessedAddress] at accessed
  generalize beforeFetch text count env st = outcome at switches
  generalize atSwitch text count env st = asked at switches accessed
  cases switches with
  | left => cases accessed
  | reached buf line reply =>
      have treats := reply_treats env st buf line reply
      rw [Option.bind_some] at accessed
      split at accessed
      · rename_i pending
        obtain rfl := Option.some.inj accessed
        cases treats with
        | leaves read write => exact absurd pending (not_or.mpr ⟨read, write⟩)
        | loads _ direct same | stores _ direct same =>
            rw [same]
            exact plain_below_input _ direct.1
      · cases accessed

theorem pass_memory (after : RunState) (reached : beforeFetch text count env st = .running after) :
    after.memory = match storeOf st with
      | some store => writeCells st.memory store.address.toNat (leByte store.value) 8
      | none => st.memory := by
  have switches := pass_switches text count env st mode
  generalize atSwitch text count env st = asked at switches
  generalize beforeFetch text count env st = outcome at switches reached
  cases switches with
  | left => cases reached
  | reached buf line reply =>
      have asked : (print (.executed line) (passReplied env st buf)).memory = st.memory := rfl
      cases reply_treats env st buf line reply with
      | leaves read write _ store =>
          rw [storeOf, if_neg store]
          exact (unrequested_memory env _ after read write reached).trans asked
      | loads code load address =>
          have store : ¬ DirectAs .directStore st.writeBuf.instruction := fun store => by
            cases direct_mode _ _ _ load store
          rw [storeOf, if_neg store]
          have plain := plain_below_limit _ load.1
          rw [← address] at plain
          exact (load_memory env _ after code plain reached).trans asked
      | stores code store address value =>
          have plain := plain_below_limit _ store.1
          rw [← address] at plain
          rw [value]
          exact store_memory env _ after code plain reached

theorem pass_loads (load : DirectAs .directLoad st.writeBuf.instruction) (reg : Fin 4)
    (named : getRegister (st.writeBuf.instruction.operand1.setWidth 64) = some reg) (asked : RunState)
    (switched : atSwitch text count env st = some asked) :
    ∃ after, beforeFetch text count env st = .running after ∧
      after.writeBuf.val = leWord 64 (fun i => st.memory (st.writeBuf.instruction.operand2.toNat + i)) 8 ∧
      (env.dataFault = false → after.ctx.cpu.regs reg = after.writeBuf.val) := by
  have switches := pass_switches text count env st mode
  rw [switched] at switches
  generalize beforeFetch text count env st = outcome at switches ⊢
  cases switches with
  | reached buf line reply =>
      cases reply_treats env st buf line reply with
      | leaves _ _ other => exact absurd load other
      | stores _ store => cases direct_mode _ _ _ load store
      | loads code _ address register =>
          have plain := plain_below_limit _ load.1
          rw [← address] at plain
          rw [← register] at named
          obtain ⟨after, served, value, delivered⟩ := load_delivers env _ reg code plain named
          rw [address] at value
          exact ⟨after, served, value, delivered⟩

end Pass

section Run

variable (text : List (List Char)) (count : Int) (envs : Nat → IterEnv) (opening : OpenEnv) (board : Board) (memory : Memory)

theorem start_memory (st : RunState) (started : runStart opening board memory = .running st) : st.memory = memory := by
  simp only [runStart] at started
  split at started
  · cases started
  · split at started
    · cases started
    · split at started
      · cases started
      · rw [← Progress.running.inj started]
        simp

theorem stored_byte_snoc (stores : List Store) (store : Store) : storedByte memory (stores ++ [store]) =
    writeCells (storedByte memory stores) store.address.toNat (leByte store.value) 8 := by
  funext x
  rw [storedByte, List.map_append, List.map_singleton, overwritten_snoc]
  rfl

theorem refetch_memory (env : IterEnv) (after next : RunState) (fetched : refetch env after = .running next) :
    next.memory = after.memory := by
  rw [refetch] at fetched
  split at fetched
  · cases fetched
  · rw [← Progress.running.inj fetched]
    simp [holdNext]

theorem run_memory (k : Nat) (st : RunState)
    (current : runLoop text count envs (runStart opening board memory) k = .running st) :
    st.memory = storedByte memory (storesBefore (runLoop text count envs (runStart opening board memory)) k) := by
  induction k generalizing st with
  | zero => exact start_memory opening board memory st current
  | succ k ih =>
      obtain ⟨before, reached, stepped⟩ := Progress.iterate_running_before _ _ k st current
      have mode := (run_holds text count envs opening board memory k before reached).mode
      rw [run_iteration_fetches] at stepped
      cases passed : beforeFetch text count (envs k) before with
      | stopped ending =>
          rw [passed] at stepped
          cases stepped
      | running after =>
          rw [passed] at stepped
          have here : runLoop text count envs (runStart opening board memory) k = .running before := reached
          rw [refetch_memory (envs k) after st stepped, pass_memory text count (envs k) before mode after passed, ih before reached,
            storesBefore, here]
          dsimp only
          cases storeOf before with
          | none => rw [Option.toList_none, List.append_nil]
          | some store => rw [Option.toList_some, stored_byte_snoc]

end Run

structure Loaded (image : Memory) (stores : List Store) (address : U64) (env : IterEnv) (reg : Fin 4) (after : RunState) :
    Prop where
  bytes : ∀ i, i < 8 → leByte after.writeBuf.val i = storedByte image stores (address.toNat + i)
  register : env.dataFault = false → after.ctx.cpu.regs reg = after.writeBuf.val
  latest : ∀ store, stores.getLast? = some store → store.address = address → after.writeBuf.val = store.value

theorem loaded_latest (image : Memory) (stores : List Store) (address value : U64)
    (bytes : ∀ i, i < 8 → leByte value i = storedByte image stores (address.toNat + i)) (store : Store)
    (last : stores.getLast? = some store) (same : store.address = address) : value = store.value := by
  obtain ⟨before, rfl⟩ := List.getLast?_eq_some_iff.mp last
  apply le_word_bytes_injective value store.value 8 (by decide)
  intro i inside
  rw [bytes i inside, stored_byte_snoc, write_cells_apply, same, if_pos (by omega), Nat.add_sub_cancel_left]

-- Whatever the program is and whatever the calls return, in every pass.
theorem data_memory_is_byte_store (text : List (List Char)) (count : Int) (envs : Nat → IterEnv) (opening : OpenEnv)
    (board : Board) (image : Memory) (k : Nat) (st : RunState)
    (current : runLoop text count envs (runStart opening board image) k = .running st) :
    mmioInput.toNat < memSize ∧
      (∀ address, accessedAddress text count (envs k) st = some address → address.toNat + 7 < mmioInput.toNat) ∧
      ∀ reg asked, DirectAs .directLoad st.writeBuf.instruction →
        getRegister (st.writeBuf.instruction.operand1.setWidth 64) = some reg →
        atSwitch text count (envs k) st = some asked →
        ∃ after, beforeFetch text count (envs k) st = .running after ∧
          Loaded image (storesBefore (runLoop text count envs (runStart opening board image)) k)
            st.writeBuf.instruction.operand2 (envs k) reg after := by
  have mode := (run_holds text count envs opening board image k st current).mode
  refine ⟨by decide, accessed_address_in_range text count (envs k) st mode, fun reg asked load named switched => ?_⟩
  obtain ⟨after, served, value, register⟩ := pass_loads text count (envs k) st mode load reg named asked switched
  have bytes (i : Nat) (inside : i < 8) : leByte after.writeBuf.val i =
      storedByte image (storesBefore (runLoop text count envs (runStart opening board image)) k)
        (st.writeBuf.instruction.operand2.toNat + i) := by
    rw [value, le_byte_of_word _ 8 i inside (by decide), run_memory text count envs opening board image k st current]
  exact ⟨after, served, bytes, register, loaded_latest image _ _ _ bytes⟩

-- MOV [0x1002], R0 and MOV R1, [0x1000]; every byte from 0x1000 on is 7.
def overlapImage (x : Nat) : U8 :=
  if 0x1000 ≤ x then 7
  else match x with
    | 0 => Opcode.mov.code
    | 1 => Mode.directStore.code
    | 3 => 2
    | 4 => 0x10
    | 11 => Opcode.mov.code
    | 12 => Mode.directLoad.code
    | 13 => 1
    | 15 => 0x10
    | _ => 0

def overlapRun : Nat → LoopStep :=
  runLoop [['s'], ['l']] 2 (fun _ => pressedEnv) (runStart startedOpening darkBoard overlapImage)

theorem data_memory_is_byte_store_overlap : ∃ st after, overlapRun 1 = .running st ∧
    beforeFetch [['s'], ['l']] 2 pressedEnv st = .running after ∧
    Loaded overlapImage (storesBefore overlapRun 1) 0x1000 pressedEnv 1 after ∧
    (List.range 3).map (fun i => storedByte overlapImage (storesBefore overlapRun 1) (0x1000 + i)) = [7, 7, 0] := by
  have held : (match overlapRun 1 with
      | .running st => (some st.writeBuf.instruction, (atSwitch [['s'], ['l']] 2 pressedEnv st).isSome)
      | .stopped _ => (none, false)) = (some ⟨0x1000, 1, Opcode.mov.code, Mode.directLoad.code⟩, true) := by decide +kernel
  cases current : overlapRun 1 with
  | stopped ending =>
      rw [current] at held
      cases held
  | running st =>
      rw [current] at held
      obtain ⟨direct, switched⟩ := Prod.mk.inj held
      obtain ⟨asked, switched⟩ := Option.isSome_iff_exists.mp switched
      have loads := (data_memory_is_byte_store [['s'], ['l']] 2 (fun _ => pressedEnv) startedOpening darkBoard overlapImage 1 st
        current).2.2
      rw [Option.some.inj direct] at loads
      obtain ⟨after, served, loaded⟩ := loads 1 asked (by decide) rfl switched
      exact ⟨st, after, rfl, served, loaded, by decide +kernel⟩

end CpuEmulator.Userspace
