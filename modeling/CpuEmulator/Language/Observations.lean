import CpuEmulator.Language.Preservation
import CpuEmulator.Userspace.Records

set_option autoImplicit false

namespace CpuEmulator.Language

open Library Assembler Isa Driver Userspace

def executedLines (stdout : List Message) : List Text :=
  stdout.filterMap fun
    | .executed text => some text
    | _ => none

def saidLines (st : SourceState) : SourceProgress → List Text
  | .stopped (.rejected _) => []
  | _ => [stepText st]

def printedLines (items : List Item) (inputs : Nat → U64) (memory : Nat → U8) : Nat → List Text :=
  Progress.log (fun _ st after => saidLines st after) (fun k => sourceStep items (inputs k)) (.running (sourceStart memory items))

def statementRecord : Statement → List MemAccess
  | .load _ address => if address.value < dataLimit then [⟨address.value, 0⟩] else []
  | .store address _ => if address.value < dataLimit then [⟨address.value, 1⟩] else []
  | _ => []

def fetchRecord (items : List Item) (st : SourceState) : MemAccess :=
  ⟨BitVec.ofNat 64 (place items st.rest * instrSize), 0⟩

def stepRecords (items : List Item) (st : SourceState) : SourceProgress → List MemAccess
  | .running next => ((nextStatement st.rest).map (fun found => statementRecord found.1)).getD [] ++ [fetchRecord items next]
  | .stopped _ => []

def sourceAccesses (items : List Item) (inputs : Nat → U64) (memory : Nat → U8) (k : Nat) : List MemAccess :=
  fetchRecord items (sourceStart memory items) ::
    Progress.log (fun _ => stepRecords items) (fun k => sourceStep items (inputs k)) (.running (sourceStart memory items)) k

section Printing

theorem executed_lines_append (before after : List Message) :
    executedLines (before ++ after) = executedLines before ++ executedLines after :=
  List.filterMap_append

theorem executed_lines_print (message : Message) (st : RunState) :
    executedLines (print message st).stdout = executedLines st.stdout ++ executedLines [message] :=
  executed_lines_append _ _

theorem trace_fetch_prints (ret : Int) (st : RunState) : executedLines (traceFetch ret st).stdout = executedLines st.stdout := by
  rw [traceFetch]
  split
  · rw [executed_lines_print, (trace_access_frame ret st).2.2.2.2.2]
    exact List.append_nil _
  · rw [(trace_access_frame ret st).2.2.2.2.2]

def Prints (lines : List Text) (after : LoopStep) : Prop := after = .stopped .fault ∨ executedLines (stdoutOf after) = lines

theorem serve_prints (env : IterEnv) (st : RunState) : Prints (executedLines st.stdout) (serve env st) := by
  simp only [serve]
  split
  · exact Or.inr rfl
  · split
    · exact Or.inr rfl
    · split
      · split
        · exact Or.inl rfl
        · split
          · exact Or.inl rfl
          · exact Or.inr (congrArg executedLines (trace_access_frame _ _).2.2.2.2.2)
      · split
        · split
          · exact Or.inl rfl
          · exact Or.inr (congrArg executedLines (trace_access_frame _ _).2.2.2.2.2)
        · split <;> exact Or.inr ((executed_lines_print _ st).trans (List.append_nil _))

theorem refetch_prints (env : IterEnv) (st : RunState) : Prints (executedLines st.stdout) (refetch env st) := by
  rw [refetch]
  split
  · exact Or.inl rfl
  · exact Or.inr (trace_fetch_prints _ _)

theorem labelled_prints (text : List Text) (count : Int) (env : IterEnv) (i : Int) (st : RunState) (line : Text) (within : i < count)
    (named : textAt text i = some line) : Prints (executedLines st.stdout ++ [line]) (afterRead text count env i st) := by
  have printed : executedLines (print (.executed line) st).stdout = executedLines st.stdout ++ [line] := executed_lines_print _ st
  rw [after_read_within text count env st line i within named, ← printed]
  have served := serve_prints env (print (.executed line) st)
  generalize serve env (print (.executed line) st) = outcome at served ⊢
  cases outcome with
  | stopped ended => exact served
  | running after =>
      obtain faulted | served := served
      · cases faulted
      · have said := refetch_prints env after
        rw [show executedLines after.stdout = _ from served] at said
        exact said

theorem pass_prints (text : List Text) (count : Int) (env : IterEnv) (st : RunState) (line : Text) (ok : Succeeds env)
    (mode : st.writeBuf.isInstruction = 1) (within : instructionIndex st.readBuf.pc < count)
    (named : textAt text (instructionIndex st.readBuf.pc) = some line) :
    Prints (executedLines st.stdout ++ if (passExecuted env st).ret = -einval then [] else [line])
      (runIteration text count env st) := by
  by_cases rejected : (passExecuted env st).ret = -einval
  · rw [if_pos rejected, pass_rejected text count env st ok mode rejected]
    exact Or.inr (executed_lines_print _ _)
  · rw [if_neg rejected]
    cases reply : readBuf (passExecuted env st).cpu (passExecuted env st).ret with
    | some buf =>
        rw [pass_replied text count env st ok mode buf rejected reply]
        exact labelled_prints text count env _ (passReplied env st buf) line within named
    | none =>
        have driven := before_fetch_driven text count env st mode
        rw [run_iteration_fetches]
        generalize beforeFetch text count env st = before at driven ⊢
        cases driven with
        | left ret final quiet executed ended => exact absurd ⟨⟨ok.sent, ok.woken⟩, ok.copied, rejected⟩ ended
        | fault _ => exact Or.inl rfl
        | replied buf found =>
            rw [reply] at found
            cases found

end Printing

section Standing

variable (source : SourceFile) (items : List Item) (runnable : Runnable source items) (program : Assembler.Program)
  (compiled : Compiled items program.instructions) (texts : program.instructionText = textsOf items ++ [haltText])
  (env : IterEnv) (ok : Succeeds env) (st : RunState) (src : SourceState)
  (stands : Stands source items runnable program compiled st src)

structure AtStatement (raw : Instruction) : Prop where
  access : program.instructions[place items src.rest]? = some raw
  held : st.writeBuf.instruction = raw
  index : instructionIndex st.readBuf.pc = place items src.rest
  within : instructionIndex st.readBuf.pc < (loaded program).count
  said : textAt (loaded program).text (instructionIndex st.readBuf.pc) = some (stepText src)

include compiled in
theorem place_inside (here : src.rest <:+ items) : place items src.rest < program.instructions.length := by
  rw [compiled_length items _ compiled]
  exact Nat.lt_succ_of_le (suffix_place items src.rest here).2.1

theorem step_text_at (here : src.rest <:+ items) :
    (textsOf items ++ [haltText])[place items src.rest]? = some (stepText src) := by
  obtain ⟨_, _, later⟩ := suffix_place items src.rest here
  rw [stepText]
  cases next : nextStatement src.rest with
  | none =>
      rw [place_finished items src.rest next, ← texts_of_length, List.getElem?_append_right (Nat.le_refl _), Nat.sub_self]
      rfl
  | some found =>
      obtain ⟨statement, text, rest⟩ := found
      have first := (next_statement_some src.rest rest statement text next).2.1
      have access : (textsOf items)[place items src.rest]? = some text := by
        rw [← List.head?_drop, later, first, List.head?_cons]
      exact (List.getElem?_append_left (List.getElem?_eq_some_iff.mp access).1).trans access

include stands texts in
theorem stands_at_statement : ∃ raw, AtStatement items program st src raw := by
  have here := stands.carries.here
  have inside := place_inside items program compiled src here
  have access := List.getElem?_eq_getElem inside
  have held := fetch_at_instruction (listedProgram source items runnable program compiled) blankMemory _ _ _ stands.inside access
    stands.carries.pc
  have index : instructionIndex st.readBuf.pc = place items src.rest := by
    rw [stands.ready.position]
    exact instruction_index_position (listedProgram source items runnable program compiled) _ _ inside stands.carries.pc
  refine ⟨_, access, Option.some.inj (stands.ready.fetched.symm.trans held), index, ?_, ?_⟩
  · rw [index, loaded_count source items runnable program compiled]
    exact Int.ofNat_lt.mpr inside
  · rw [index, text_at_index, ← step_text_at items src here]
    exact congrArg (·[_]?) texts

include stands texts ok in
theorem stands_settles : ∃ out, Settles st.memory (passExecuted env st) out ∧
    Follows items (codeBytes items) out (sourceStep items (BitVec.ofInt 64 env.read.input) src) := by
  obtain ⟨raw, access, held, _⟩ := stands_at_statement source items runnable program compiled texts st src stands
  have bytes := compiled_bytes items program compiled
  refine ⟨_, ?_, bytes ▸ step_follows items program.instructions _ compiled runnable.closed (bytes ▸ runnable.above)
    (bytes ▸ runnable.fits) (BitVec.ofInt 64 env.read.input) (view st.ctx.cpu st.memory) src (bytes ▸ stands.carries)⟩
  have step := step_at_instruction (listedProgram source items runnable program compiled) (view st.ctx.cpu st.memory)
    (BitVec.ofInt 64 env.read.input) _ raw access stands.carries.pc
  rw [passExecuted, held]
  refine step ▸ execute_settles env.read.input st.ctx.cpu (consumeStep st.board) raw st.memory ok.bit
    ((listedProgram source items runnable program compiled).registers raw (List.mem_of_getElem? access)) stands.inside.flags

theorem settles_rejected (memory : Userspace.Memory) (done : Executed) (out : Outcome) (settled : Settles memory done out) :
    done.ret = -einval ↔ ∃ m, out = .stopped (.rejected m) := by
  cases settled with
  | rejected code => exact ⟨fun _ => ⟨_, rfl⟩, fun _ => code⟩
  | success code | halted code | mmioRead code | memRead _ code | memWrite _ code =>
      rw [code]
      exact ⟨fun same => absurd same (by decide), fun ⟨_, same⟩ => by cases same⟩

include stands texts ok in
theorem stands_prints : Prints (executedLines st.stdout ++ saidLines src (sourceStep items (BitVec.ofInt 64 env.read.input) src))
    (runIteration (loaded program).text (loaded program).count env st) := by
  obtain ⟨raw, _, _, _, within, said⟩ := stands_at_statement source items runnable program compiled texts st src stands
  obtain ⟨out, settled, follows⟩ := stands_settles source items runnable program compiled texts env ok st src stands
  have rejected := settles_rejected _ _ out settled
  have printed := pass_prints _ _ env st (stepText src) ok stands.ready.isInstruction within said
  generalize sourceStep items _ src = after at follows ⊢
  cases follows with
  | running _ =>
      rw [if_neg fun code => by cases rejected.mp code with | intro _ same => cases same] at printed
      exact printed
  | stopped ends =>
      cases ends with
      | halted _ _ _ =>
          rw [if_neg fun code => by cases rejected.mp code with | intro _ same => cases same] at printed
          exact printed
      | rejected m _ _ =>
          rw [if_pos (rejected.mpr ⟨m, rfl⟩)] at printed
          exact printed

def traceOf : LoopStep → List MemAccess
  | .running st => st.trace
  | .stopped (.exit _ st) => st.trace
  | .stopped .fault => []

theorem record_denoted (statement : Statement) (raw : Instruction) (denotes : statement.Denotes (targetOf items) raw) :
    dataRecord raw = statementRecord statement := by
  have mmio (address : U64) : isMmio address = false ↔ address < dataLimit := by
    rw [is_mmio_plain, Bool.not_eq_false', decide_eq_true_iff]
  have other (mode : Mode) (same : raw.mode = mode.code) (plain : modeOf mode.code = some mode) (load : mode ≠ .directLoad)
      (store : mode ≠ .directStore) : dataRecord raw = [] := by
    refine if_neg fun direct => ?_
    have stated := direct.2.1
    rw [same, plain] at stated
    rcases stated with stated | stated
    · exact load (Option.some.inj stated)
    · exact store (Option.some.inj stated)
  cases statement with
  | registers op first second => exact other .register (congrArg Instruction.mode denotes) rfl (by decide) (by decide)
  | literal op first value => exact other .immediate (congrArg Instruction.mode denotes) rfl (by decide) (by decide)
  | negate register => exact other .register denotes.2.1 rfl (by decide) (by decide)
  | branch op label => exact other .label denotes.2.1 rfl (by decide) (by decide)
  | load target address =>
      obtain rfl := denotes
      rw [dataRecord, statementRecord]
      refine if_congr ?_ rfl rfl
      exact ⟨fun plain => (mmio _).mp plain.2.2, fun plain => ⟨rfl, Or.inl rfl, (mmio _).mpr plain⟩⟩
  | store address source =>
      obtain rfl := denotes
      rw [dataRecord, statementRecord]
      refine if_congr ?_ rfl rfl
      exact ⟨fun plain => (mmio _).mp plain.2.2, fun plain => ⟨rfl, Or.inr rfl, (mmio _).mpr plain⟩⟩

include stands in
theorem stands_record (raw : Instruction) (access : program.instructions[place items src.rest]? = some raw) :
    dataRecord raw = ((nextStatement src.rest).map (fun found => statementRecord found.1)).getD [] := by
  have here := stands.carries.here
  cases next : nextStatement src.rest with
  | none =>
      rw [place_finished items src.rest next, compiled_end items _ compiled] at access
      obtain rfl := Option.some.inj access
      decide
  | some found =>
      obtain ⟨statement, text, rest⟩ := found
      obtain ⟨stated, _⟩ := place_next items src.rest here statement text rest next
      obtain ⟨instr, same, denotes⟩ := compiled_statement items _ compiled _ statement stated
      obtain rfl := Option.some.inj (access.symm.trans same)
      exact record_denoted items statement raw denotes

include stands texts ok in
theorem stands_follows : Progress.Related (Carries items) (fun ended _ => ended ≠ .fault)
    (runIteration (loaded program).text (loaded program).count env st)
    (sourceStep items (BitVec.ofInt 64 env.read.input) src) := by
  have bytes := compiled_bytes items program compiled
  obtain ⟨raw, access, _⟩ := stands_at_statement source items runnable program compiled texts st src stands
  have named := (loaded_named items program compiled texts)
  obtain ⟨inside, _⟩ := List.getElem?_eq_some_iff.mp access
  have matched := (pass_at_instruction (listedProgram source items runnable program compiled) (loaded program).text blankMemory env st
    _ _ raw _ ok stands.ready stands.inside access stands.carries.pc (List.getElem?_eq_getElem (named.symm ▸ inside))).1
  have follows := step_follows items program.instructions _ compiled runnable.closed (bytes ▸ runnable.above)
    (bytes ▸ runnable.fits) (BitVec.ofInt 64 env.read.input) (view st.ctx.cpu st.memory) src (bytes ▸ stands.carries)
  rw [loaded_count source items runnable program compiled]
  refine Progress.related_compose _ _ _ _ _ _ _ _ _ matched follows (fun next m after ready simulates => ?_)
    (fun ended _ _ closing _ => ?_)
  · rw [Carries, ready.agrees, ← bytes]
    exact simulates
  · cases closing with
    | halted | rejected => exact LoopEnd.noConfusion

include stands texts ok in
theorem stands_records (data : 0 ≤ env.dataTrace) (fetch : 0 ≤ env.fetchTrace) :
    traceOf (runIteration (loaded program).text (loaded program).count env st) =
      st.trace ++ stepRecords items src (sourceStep items (BitVec.ofInt 64 env.read.input) src) := by
  obtain ⟨raw, access, held, _⟩ := stands_at_statement source items runnable program compiled texts st src stands
  have record := stands_record source items runnable program compiled st src stands raw access
  have follows := stands_follows source items runnable program compiled texts env ok st src stands
  have passed := pass_passed (loaded program).text (loaded program).count env st stands.ready data fetch
  generalize runIteration _ _ env st = client at follows passed ⊢
  generalize sourceStep items _ src = after at follows ⊢
  cases follows with
  | stopped unharmed =>
      cases passed with
      | left ret final quiet _ => exact quiet.trans (List.append_nil _).symm
      | fault unbound => exact absurd rfl unharmed
  | running carries =>
      cases passed with
      | went next ready pc recorded =>
          rw [traceOf, recorded, stepRecords, held, record, fetchRecord, ← carries.pc, BitVec.ofNat_toNat, List.append_assoc]
          rfl

include stands texts ok in
theorem stands_said : executedLines (stdoutOf (runIteration (loaded program).text (loaded program).count env st)) =
    executedLines st.stdout ++ saidLines src (sourceStep items (BitVec.ofInt 64 env.read.input) src) := by
  have follows := stands_follows source items runnable program compiled texts env ok st src stands
  obtain faulted | printed := stands_prints source items runnable program compiled texts env ok st src stands
  · rw [faulted] at follows
    generalize sourceStep items _ src = after at follows
    cases follows with
    | stopped unharmed => exact absurd rfl unharmed
  · exact printed

end Standing

theorem start_says_nothing (opening : OpenEnv) (board : Board) (memory : Userspace.Memory) :
    executedLines (stdoutOf (runStart opening board memory)) = [] := by
  simp only [runStart]
  split
  · rfl
  · split
    · rfl
    · split
      · rfl
      · exact trace_fetch_prints _ _

section Loop

variable (source : SourceFile) (items : List Item) (runnable : Runnable source items) (program : Assembler.Program)
  (compiled : Compiled items program.instructions) (texts : program.instructionText = textsOf items ++ [haltText])
  (opening : OpenEnv) (board : Board) (envs : Nat → IterEnv) (opens : Opens opening) (succeeds : ∀ k, Succeeds (envs k)) (k : Nat)

include runnable compiled texts opens succeeds

theorem loop_prints : executedLines (stdoutOf (runLoop (loaded program).text (loaded program).count envs
      (runStart opening board (loaded program).memory) k)) =
    printedLines items (fun j => BitVec.ofInt 64 (envs j).read.input) blankMemory k := by
  have stands := loop_stands source items runnable program compiled texts opening board envs opens succeeds
  have logged := Progress.related_log _ _ _ _ _ _ (fun after => executedLines (stdoutOf after)) (fun _ st after => saidLines st after)
    stands (fun j st src here => stands_said source items runnable program compiled texts (envs j) (succeeds j) st src here) k
  rw [start_says_nothing, List.nil_append] at logged
  exact logged

theorem loop_records_source (first : 0 ≤ opening.firstTrace) (traced : ∀ k, 0 ≤ (envs k).dataTrace ∧ 0 ≤ (envs k).fetchTrace) :
    traceOf (runLoop (loaded program).text (loaded program).count envs (runStart opening board (loaded program).memory) k) =
      sourceAccesses items (fun j => BitVec.ofInt 64 (envs j).read.input) blankMemory k := by
  have stands := loop_stands source items runnable program compiled texts opening board envs opens succeeds
  have logged := Progress.related_log _ _ _ _ _ _ traceOf (fun _ => stepRecords items) stands
    (fun j st src here => stands_records source items runnable program compiled texts (envs j) (succeeds j) st src here
      (traced j).1 (traced j).2) k
  obtain ⟨st, started, _, _, trace⟩ := start_recorded opening board (loaded program).memory opens first
  have zero : fetchRecord items (sourceStart blankMemory items) = ⟨0, 0⟩ := by
    rw [fetchRecord, sourceStart, place, Nat.sub_self]
    rfl
  rw [started, traceOf, trace, ← zero] at logged
  rw [started]
  exact logged

end Loop

-- What main prints while it runs a source is what its author would read out of
-- it: the text of each statement that is performed, in order, and no other line.
theorem source_lines_printed (alloc : Nat → Assembler.Memory) (allocates : Allocates alloc) (source : SourceFile)
    (items : List Item) (runnable : Runnable source items) :
    ∃ program, parseAssembly alloc (some source) = .ok program ∧
      ∀ opening board envs, Opens opening → (∀ k, Succeeds (envs k)) → ∀ k,
        executedLines (stdoutOf (runLoop (loaded program).text (loaded program).count envs
            (runStart opening board (loaded program).memory) k)) =
          printedLines items (fun j => BitVec.ofInt 64 (envs j).read.input) blankMemory k := by
  obtain ⟨program, returned⟩ := listing_returned alloc source items runnable.short runnable.listed allocates
  obtain ⟨compiled, texts⟩ := returned_compiled alloc source items program runnable.short runnable.listed runnable.closed returned
  exact ⟨program, returned, fun opening board envs opens succeeds k =>
    loop_prints source items runnable program compiled texts opening board envs opens succeeds k⟩

theorem source_lines_printed_count_once :
    ∃ program, parseAssembly freeMemory (some countOnceSource) = .ok program ∧
      executedLines (stdoutOf (runLoop (loaded program).text (loaded program).count (fun _ => pressedEnv)
          (runStart startedOpening darkBoard (loaded program).memory) 3)) =
        [['A', 'D', 'D', ' ', 'R', '0', ',', ' ', '1'], ['J', 'G', ' ', 'L', ' ', ';', ' ', 'o', 'n'],
          ['J', 'G', ' ', 'L', ' ', ';', ' ', 'o', 'n']] := by
  obtain ⟨program, returned, printed⟩ :=
    source_lines_printed freeMemory (fun _ => ⟨rfl, rfl⟩) countOnceSource countOnce count_once_runnable
  exact ⟨program, returned, printed startedOpening darkBoard (fun _ => pressedEnv) ⟨by decide, rfl, by decide⟩
    (fun _ => ⟨rfl, rfl, rfl, rfl, Or.inr rfl⟩) 3⟩

end CpuEmulator.Language
