import CpuEmulator.Driver.Lights
import CpuEmulator.Language.Observations

set_option autoImplicit false

namespace CpuEmulator.Language

open Library Assembler Isa Driver Userspace

def statementOutput (st : SourceState) (lit : Bool) : Statement → Bool
  | .store address source =>
      if address.value = outputAddr then
        if st.regs source = 0 then false else if st.regs source = 1 then true else lit
      else lit
  | _ => lit

def regsOf : SourceProgress → Fin 4 → U64
  | .running st | .stopped (.finished st) | .stopped (.rejected st) | .stopped (.unlabelled st) => st.regs

def stepLights (st : SourceState) (after : SourceProgress) (lights : Lights) : Lights where
  leds := fun i => regsOf after i != st.regs i
  output := ((nextStatement st.rest).map (fun found => statementOutput st lights.output found.1)).getD lights.output

def sourceLights (items : List Item) (inputs : Nat → U64) (memory : Nat → U8) : Lights → Nat → Lights :=
  Progress.trail (fun _ => stepLights) (fun k => sourceStep items (inputs k)) (.running (sourceStart memory items))

def lightsOf : LoopStep → Lights
  | .running st => st.board.lights
  | .stopped (.exit _ st) => st.board.lights
  | .stopped .fault => ⟨fun _ => false, false⟩

def clientRegs : LoopStep → Fin 4 → U64
  | .running st => st.ctx.cpu.regs
  | .stopped (.exit _ st) => st.ctx.cpu.regs
  | .stopped .fault => fun _ => 0

section Pass

def Shown (before : Fin 4 → U64) (output : Bool) (st : RunState) : Prop :=
  st.board.lights = ⟨fun i => st.ctx.cpu.regs i != before i, output⟩

def Lit (before : Fin 4 → U64) (output : Bool) : LoopStep → Prop
  | .running st => Shown before output st
  | .stopped (.exit _ st) => Shown before output st
  | .stopped .fault => True

variable (before : Fin 4 → U64) (output : Bool) (env : IterEnv) (st : RunState) (shown : Shown before output st)

include shown

theorem shown_same (other : RunState) (board : other.board = st.board) (ctx : other.ctx = st.ctx) : Shown before output other := by
  rw [Shown, board, ctx]
  exact shown

theorem refetch_lit : Lit before output (refetch env st) := by
  rw [refetch]
  split
  · trivial
  · obtain ⟨board, ctx, _⟩ := trace_fetch_frame env.fetchTrace (holdNext _ st)
    exact shown_same before output st shown _ board ctx

theorem serve_lit (unchanged : st.readBuf.execReturn = execPendingMemRead → st.ctx.cpu.regs = before) :
    Lit before output (serve env st) := by
  simp only [serve]
  split
  · exact shown
  · split
    · exact shown
    · split
      · rename_i code
        split
        · trivial
        · split
          · trivial
          · rename_i reply wrote
            have answered : Shown before output { st with board := reply.board, ctx := reply.ctx } := by
              simp only [cpuWrite] at wrote
              rw [if_neg (not_not_intro rfl)] at wrote
              split at wrote
              · obtain rfl := Option.some.inj wrote
                exact shown
              · rw [if_neg (not_not_intro rfl)] at wrote
                obtain ⟨reg, _, rfl⟩ := Option.map_eq_some_iff.mp wrote
                have kept : st.board.outputDev = output := congrArg Lights.output shown
                rw [← unchanged code, ← kept]
                rfl
            obtain ⟨board, ctx, _⟩ := trace_access_frame env.dataTrace _
            exact shown_same before output _ answered _ board ctx
      · split
        · split
          · trivial
          · obtain ⟨board, ctx, _⟩ := trace_access_frame env.dataTrace _
            exact shown_same before output st shown _ board ctx
        · split
          · exact shown
          · exact shown

omit shown

theorem executed_regs_pending (input : Int) (cpu : MyCpu) (board : Board) (instr : Instruction)
    (pending : (executeInstruction input cpu board instr).ret = execPendingMemRead) :
    (executeInstruction input cpu board instr).cpu.regs = cpu.regs := by
  have effect := execute_effect input cpu board instr
  generalize executeInstruction input cpu board instr = done at effect pending ⊢
  cases effect with
  | load | store | rejected | halted | jumped => rfl
  | computed | mmioRead => cases pending

theorem pass_lit (text : List Text) (count : Int) (line : Text) (ok : Succeeds env) (mode : st.writeBuf.isInstruction = 1)
    (within : instructionIndex st.readBuf.pc < count) (named : textAt text (instructionIndex st.readBuf.pc) = some line) :
    Lit st.ctx.cpu.regs (outputAfter st.ctx.cpu st.writeBuf.instruction st.board.outputDev) (runIteration text count env st) := by
  have shows := execute_shows env.read.input st.ctx.cpu (consumeStep st.board) st.writeBuf.instruction
  have undisturbed : (consumeStep st.board).outputDev = st.board.outputDev := by
    rw [consumeStep]
    split <;> rfl
  rw [undisturbed] at shows
  have replied (readBuf : ReadValue) :
      Shown st.ctx.cpu.regs (outputAfter st.ctx.cpu st.writeBuf.instruction st.board.outputDev) (passReplied env st readBuf) := by
    rw [Shown, Board.lights, passReplied, passExecuted, shows.leds, shows.output]
  by_cases rejected : (passExecuted env st).ret = -einval
  · rw [pass_rejected text count env st ok mode rejected]
    exact replied st.readBuf
  · cases reply : readBuf (passExecuted env st).cpu (passExecuted env st).ret with
    | some buf =>
        rw [pass_replied text count env st ok mode buf rejected reply, after_read_within text count env _ line _ within named]
        obtain ⟨_, code, _⟩ := read_buf_fields _ _ buf reply
        have served := serve_lit st.ctx.cpu.regs _ env (print (.executed line) (passReplied env st buf)) (replied buf)
          fun pending => executed_regs_pending _ _ _ _ (code.symm.trans pending)
        generalize serve env (print (.executed line) (passReplied env st buf)) = outcome at served ⊢
        cases outcome with
        | stopped ended => exact served
        | running after => exact refetch_lit _ _ env after served
    | none =>
        have driven := before_fetch_driven text count env st mode
        rw [run_iteration_fetches]
        generalize beforeFetch text count env st = outcome at driven ⊢
        cases driven with
        | left ret final quiet executed ended => exact absurd ⟨⟨ok.sent, ok.woken⟩, ok.copied, rejected⟩ ended
        | fault _ => trivial
        | replied buf found =>
            rw [reply] at found
            cases found

end Pass

section Standing

variable (source : SourceFile) (items : List Item) (runnable : Runnable source items) (program : Assembler.Program)
  (compiled : Compiled items program.instructions) (texts : program.instructionText = textsOf items ++ [haltText])
  (env : IterEnv) (ok : Succeeds env) (st : RunState) (src : SourceState)
  (stands : Stands source items runnable program compiled st src)

theorem output_denoted (statement : Statement) (raw : Instruction) (denotes : statement.Denotes (targetOf items) raw) (cpu : MyCpu)
    (regs : cpu.regs = src.regs) (lit : Bool) : outputAfter cpu raw lit = statementOutput src lit statement := by
  have other (mode : Mode) (same : raw.mode = mode.code) (plain : modeOf mode.code = some mode) (store : mode ≠ .directStore) :
      outputAfter cpu raw lit = lit := by
    refine if_neg fun all => ?_
    have stated := all.2.1
    rw [same, plain] at stated
    exact store (Option.some.inj stated)
  cases statement with
  | registers op first second => exact other .register (congrArg Instruction.mode denotes) rfl (by decide)
  | literal op first value => exact other .immediate (congrArg Instruction.mode denotes) rfl (by decide)
  | load target address => exact other .directLoad (congrArg Instruction.mode denotes) rfl (by decide)
  | negate register => exact other .register denotes.2.1 rfl (by decide)
  | branch op label => exact other .label denotes.2.1 rfl (by decide)
  | store address register =>
      obtain rfl := denotes
      have found : ∀ register : Fin 4, getRegister ((BitVec.ofNat 8 register.val).setWidth 64) = some register := by decide
      rw [outputAfter, statementOutput, ← regs]
      refine if_congr ⟨fun all => all.2.2, fun device => ⟨rfl, rfl, device⟩⟩ ?_ rfl
      rw [found]

include stands in
theorem stands_output (raw : Instruction) (access : program.instructions[place items src.rest]? = some raw) (lit : Bool) :
    outputAfter st.ctx.cpu raw lit =
      ((nextStatement src.rest).map (fun found => statementOutput src lit found.1)).getD lit := by
  have here := stands.carries.here
  cases next : nextStatement src.rest with
  | none =>
      rw [place_finished items src.rest next, compiled_end items _ compiled] at access
      obtain rfl := Option.some.inj access
      exact if_neg fun all => absurd all.2.2 (by decide)
  | some found =>
      obtain ⟨statement, text, rest⟩ := found
      obtain ⟨stated, _⟩ := place_next items src.rest here statement text rest next
      obtain ⟨instr, same, denotes⟩ := compiled_statement items _ compiled _ statement stated
      obtain rfl := Option.some.inj (access.symm.trans same)
      exact output_denoted items src statement raw denotes st.ctx.cpu stands.carries.data.regs lit

theorem related_regs (after : LoopStep) (reached : SourceProgress)
    (related : Progress.Related (Stands source items runnable program compiled) (Closes items) after reached) :
    clientRegs after = regsOf reached ∧ after ≠ .stopped .fault := by
  cases related with
  | running stands => exact ⟨stands.carries.data.regs, fun same => by cases same⟩
  | stopped closes =>
      cases closes with
      | finished _ _ data => exact ⟨data.regs, fun same => by cases same⟩
      | rejected _ _ data => exact ⟨data.regs, fun same => by cases same⟩

include stands texts ok in
theorem stands_shows (related : Progress.Related (Stands source items runnable program compiled) (Closes items)
      (runIteration (loaded program).text (loaded program).count env st)
      (sourceStep items (BitVec.ofInt 64 env.read.input) src)) :
    lightsOf (runIteration (loaded program).text (loaded program).count env st) =
      stepLights src (sourceStep items (BitVec.ofInt 64 env.read.input) src) st.board.lights := by
  obtain ⟨raw, access, held, _, within, said⟩ := stands_at_statement source items runnable program compiled texts st src stands
  have lit := pass_lit env st (loaded program).text (loaded program).count _ ok stands.ready.isInstruction within said
  obtain ⟨regs, unharmed⟩ := related_regs source items runnable program compiled _ _ related
  rw [stepLights, ← regs, ← stands.carries.data.regs]
  rw [held, stands_output source items runnable program compiled st src stands raw access] at lit
  generalize runIteration _ _ env st = after at lit unharmed ⊢
  cases after with
  | running _ => exact lit
  | stopped ended =>
      cases ended with
      | exit _ _ => exact lit
      | fault => exact absurd rfl unharmed

end Standing

theorem start_lights (opening : OpenEnv) (board : Board) (memory : Userspace.Memory) (st : RunState)
    (started : runStart opening board memory = .running st) : st.board.lights = board.lights := by
  simp only [runStart, cpuOpen] at started
  split at started
  · cases started
  · rename_i opened ctx found
    split at started
    · cases started
    · split at started
      · cases started
      · obtain rfl := Progress.running.inj started
        rw [(trace_fetch_frame opening.firstTrace _).1]
        split at found
        · cases found
        · split at found
          · cases found
            rfl
          · cases found

-- After every pass the lights on the board are those that the source asks for.
theorem source_lights_shown (alloc : Nat → Assembler.Memory) (allocates : Allocates alloc) (source : SourceFile)
    (items : List Item) (runnable : Runnable source items) :
    ∃ program, parseAssembly alloc (some source) = .ok program ∧
      ∀ opening board envs, Opens opening → (∀ k, Succeeds (envs k)) → ∀ k,
        lightsOf (runLoop (loaded program).text (loaded program).count envs
            (runStart opening board (loaded program).memory) k) =
          sourceLights items (fun j => BitVec.ofInt 64 (envs j).read.input) blankMemory board.lights k := by
  obtain ⟨program, returned⟩ := listing_returned alloc source items runnable.short runnable.listed allocates
  obtain ⟨compiled, texts⟩ := returned_compiled alloc source items program runnable.short runnable.listed runnable.closed returned
  refine ⟨program, returned, fun opening board envs opens succeeds k => ?_⟩
  have stands := loop_stands source items runnable program compiled texts opening board envs opens succeeds
  have shown := Progress.related_trail _ _ _ _ _ _ lightsOf (fun _ => stepLights) stands
    (fun j st src here after => stands_shows source items runnable program compiled texts (envs j) (succeeds j) st src here after) k
  obtain ⟨st, started, _⟩ := Progress.related_running _ _ _ _ (stands 0)
  rw [show lightsOf (runStart opening board (loaded program).memory) = board.lights by
    rw [show runStart opening board (loaded program).memory = _ from started]
    exact start_lights opening board (loaded program).memory st started] at shown
  exact shown

-- The light of R0 is on behind the ADD and off behind the branch.
theorem source_lights_shown_count_once :
    ∃ program, parseAssembly freeMemory (some countOnceSource) = .ok program ∧
      let pass := runLoop (loaded program).text (loaded program).count (fun _ => pressedEnv)
        (runStart startedOpening darkBoard (loaded program).memory)
      (lightsOf (pass 1)).leds 0 = true ∧ (lightsOf (pass 1)).leds 1 = false ∧ (lightsOf (pass 2)).leds 0 = false := by
  obtain ⟨program, returned, shown⟩ :=
    source_lights_shown freeMemory (fun _ => ⟨rfl, rfl⟩) countOnceSource countOnce count_once_runnable
  have each := shown startedOpening darkBoard (fun _ => pressedEnv) ⟨by decide, rfl, by decide⟩
    (fun _ => ⟨rfl, rfl, rfl, rfl, Or.inr rfl⟩)
  refine ⟨program, returned, ?_⟩
  dsimp only
  rw [each 1, each 2]
  exact ⟨rfl, rfl, rfl⟩

end CpuEmulator.Language
