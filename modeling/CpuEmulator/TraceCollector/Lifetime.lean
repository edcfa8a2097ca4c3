import CpuEmulator.TraceCollector.Delivery
import CpuEmulator.Library.Ledger

set_option autoImplicit false

namespace CpuEmulator.TraceCollector

open Library Library.Ledger

-- What the module takes from the kernel. Chunks are named in the order of the
-- kmalloc calls that made them.
inductive Resource where
  | region (dev : Nat)
  | cdev
  | traceClass
  | device (dev : Nat)
  | chunk (number : Nat)
deriving DecidableEq

-- An error pointer holds a number from -MAX_ERRNO on.
inductive Pointer where
  | null
  | errPtr (error : Fin 4095)
  | valid
deriving DecidableEq

def ptrErr (error : Fin 4095) : Int := -(error.val + 1 : Nat)

structure InitEnv where
  allocRegion : Int
  devNum : Nat
  cdevAdd : Int
  classCreate : Pointer
  deviceCreate : Pointer

inductive Ended where
  | returned (status : Int)
  | fault
deriving DecidableEq

structure Ran where
  log : List (Entry Resource)
  ended : Ended

-- The labels of trace_init, each falling through to the next.
def freeDevNum (env : InitEnv) : List Resource := [.region env.devNum]
def deleteCdev (env : InitEnv) : List Resource := .cdev :: freeDevNum env

-- class_unregister and class_destroy each release the class.
def deleteClass (env : InitEnv) : List Resource := .traceClass :: .traceClass :: deleteCdev env

def created (env : InitEnv) : List Resource := [.region env.devNum, .cdev, .traceClass]

def traceInit (env : InitEnv) : Ran :=
  let region := Resource.region env.devNum
  if env.allocRegion < 0 then ⟨[], .returned env.allocRegion⟩
  else if env.cdevAdd < 0 then ⟨taken [region] ++ given (freeDevNum env), .returned env.cdevAdd⟩
  else
    match env.classCreate with
    -- IS_ERR lets a null pointer through to trace_class->devnode.
    | .null => ⟨taken [region, .cdev], .fault⟩
    | .errPtr error => ⟨taken [region, .cdev] ++ given (deleteCdev env), .returned (ptrErr error)⟩
    | .valid =>
        match env.deviceCreate with
        | .null => ⟨taken (created env) ++ given (deleteClass env), .returned (-enomem)⟩
        -- The test for NULL takes an error pointer for a device.
        | .errPtr _ => ⟨taken (created env), .returned 0⟩
        | .valid => ⟨taken (created env ++ [.device env.devNum]), .returned 0⟩

-- trace_buffer_free goes through the list of chunks from its head.
def traceBufferFree (owned : List Nat) : List Resource := owned.map .chunk

def traceExit (env : InitEnv) (owned : List Nat) : List (Entry Resource) :=
  given (.device env.devNum :: deleteClass env ++ traceBufferFree owned)

inductive Module where
  | unloaded
  | loaded (env : InitEnv) (session : Session) (owned : List Nat)
  | stuck (env : InitEnv)

def Module.owned : Module → List Nat
  | .loaded _ _ owned => owned
  | .unloaded | .stuck _ => []

structure Host where
  module : Module
  log : List (Entry Resource)
  kmallocs : Nat

def bareHost : Host := ⟨.unloaded, [], 0⟩

def Host.held (host : Host) : Resource → Nat := replay (fun _ => 0) host.log

inductive Event where
  | load (env : InitEnv)
  | unload
  | call (call : TraceCall)

def takesChunk (session : Session) : TraceCall → Bool
  | .write len copyFault _ kmalloc =>
      decide (sizeofMemAccess ≤ len) && !copyFault && writeChunkFull session.buffer == some true && kmalloc.isSome
  | .read _ _ => false

-- The kernel refuses to load a module twice and to unload one that is not there.
-- Without the module there is no device to call.
def hostStep (host : Host) : Event → Option Host
  | .load env =>
      match host.module with
      | .unloaded =>
          let ran := traceInit env
          let module : Module :=
            match ran.ended with
            | .returned status => if status = 0 then .loaded env loaded [] else .unloaded
            | .fault => .stuck env
          some { host with module := module, log := host.log ++ ran.log }
      | .loaded _ _ _ | .stuck _ => some host
  | .unload =>
      match host.module with
      | .loaded env _ owned => some { host with module := .unloaded, log := host.log ++ traceExit env owned }
      | .unloaded | .stuck _ => some host
  | .call call =>
      match host.module with
      | .loaded env session owned =>
          (callStep session call).map fun next =>
            if takesChunk session call then
              ⟨.loaded env next (owned ++ [host.kmallocs]), host.log ++ taken [.chunk host.kmallocs], host.kmallocs + 1⟩
            else { host with module := .loaded env next owned }
      | .unloaded | .stuck _ => some host

def Module.registered : Module → List Resource
  | .unloaded => []
  | .stuck env => [.region env.devNum, .cdev]
  | .loaded env _ owned =>
      created env ++ (if env.deviceCreate = .valid then [.device env.devNum] else []) ++ owned.map .chunk

structure Kept (host : Host) : Prop where
  session : ∀ env session owned, host.module = .loaded env session owned →
    Consistent session ∧ session.buffer.chunks.length = owned.length
  held : ∀ resource, host.held resource = host.module.registered.count resource
  named : ∀ number ∈ host.module.owned, number < host.kmallocs
  distinct : host.module.owned.Nodup
  acquired : ∀ number, host.log.count (.acquired (.chunk number)) = if number < host.kmallocs then 1 else 0
  released : ∀ number, host.log.count (.released (.chunk number)) =
    if number < host.kmallocs ∧ number ∉ host.module.owned then 1 else 0
  twice : host.log.count (.released .traceClass) + 2 * host.held .traceClass = 2 * host.log.count (.acquired .traceClass)

section Chunks

theorem store_entry_length (tb after : TraceBuffer) (entry : MemAccess) (stored : storeEntry tb entry = some after) :
    after.chunks.length = tb.chunks.length := by
  simp only [storeEntry] at stored
  split at stored
  · cases stored
  · split at stored
    · cases stored
    · split at stored
      · obtain rfl := Option.some.inj stored
        exact List.length_set
      · cases stored

theorem append_chunk_length (tb : TraceBuffer) (entries : Fin chunkSize → MemAccess) :
    (appendChunk tb entries).chunks.length = tb.chunks.length + 1 := by
  simp only [appendChunk]
  split <;> exact List.length_append

theorem push_length (tb : TraceBuffer) (entry : MemAccess) (kmalloc : Option (Fin chunkSize → MemAccess)) (reply : WriteReply)
    (pushed : traceBufferPush tb entry kmalloc = some reply) :
    reply.buffer.chunks.length =
      tb.chunks.length + (writeChunkFull tb == some true && kmalloc.isSome).toNat := by
  simp only [traceBufferPush] at pushed
  cases full : writeChunkFull tb with
  | none =>
      rw [full] at pushed
      cases pushed
  | some needed =>
      rw [full] at pushed
      cases needed with
      | false =>
          obtain ⟨after, stored, rfl⟩ := Option.map_eq_some_iff.mp pushed
          exact store_entry_length tb after entry stored
      | true =>
          cases kmalloc with
          | none =>
              obtain rfl := Option.some.inj pushed
              rfl
          | some entries =>
              obtain ⟨after, stored, rfl⟩ := Option.map_eq_some_iff.mp pushed
              exact (store_entry_length _ after entry stored).trans (append_chunk_length tb entries)

theorem read_turn_chunks (tb moved : TraceBuffer) (entry : MemAccess) (turned : readTurn tb = .copying moved entry) :
    moved.chunks = tb.chunks := by
  have here (start : TraceBuffer) (chunk : TraceChunk) (copying : entryAt start chunk = .copying moved entry) :
      moved.chunks = start.chunks := by
    rw [entryAt] at copying
    split at copying
    · cases copying
      rfl
    · cases copying
  simp only [readTurn] at turned
  split at turned
  · cases turned
  · split at turned
    · cases turned
    · split at turned
      · split at turned
        · cases turned
        · exact (here _ _ turned).trans rfl
      · exact here _ _ turned

theorem read_loop_chunks (copyFault : Nat → Bool) (remaining : Nat) (tb : TraceBuffer) (copied : List MemAccess) (reply : ReadReply)
    (ran : readLoop copyFault remaining tb copied = some reply) : reply.buffer.chunks = tb.chunks := by
  induction remaining generalizing tb copied with
  | zero =>
      obtain rfl := Option.some.inj ran
      rfl
  | succ remaining ih =>
      rw [readLoop] at ran
      split at ran
      · cases ran
      · obtain rfl := Option.some.inj ran
        rfl
      · rename_i moved entry turned
        have same := read_turn_chunks tb moved entry turned
        split at ran
        · obtain rfl := Option.some.inj ran
          exact same
        · exact (ih _ _ ran).trans same

theorem call_length (session next : Session) (call : TraceCall) (stepped : callStep session call = some next) :
    next.buffer.chunks.length = session.buffer.chunks.length + (takesChunk session call).toNat := by
  cases call with
  | write len copyFault entry kmalloc =>
      obtain ⟨reply, ran, rfl⟩ := Option.map_eq_some_iff.mp stepped
      have same : (if 0 ≤ reply.ret then ⟨reply.buffer, session.accepted ++ [entry], session.delivered⟩
          else { session with buffer := reply.buffer } : Session).buffer = reply.buffer := by
        split <;> rfl
      rw [same, takesChunk]
      rw [traceWrite] at ran
      by_cases short : len < sizeofMemAccess
      · rw [if_pos short] at ran
        obtain rfl := Option.some.inj ran
        rw [decide_eq_false (Nat.not_le.mpr short)]
        rfl
      · rw [if_neg short] at ran
        rw [decide_eq_true (Nat.not_lt.mp short)]
        cases copyFault with
        | true =>
            obtain rfl := Option.some.inj ran
            rfl
        | false =>
            obtain ⟨pushed, done, rfl⟩ := Option.map_eq_some_iff.mp ran
            have grown := push_length session.buffer entry kmalloc pushed done
            split <;> exact grown
  | read len copyFault =>
      obtain ⟨reply, ran, rfl⟩ := Option.map_eq_some_iff.mp stepped
      rw [traceRead] at ran
      split at ran
      · obtain rfl := Option.some.inj ran
        rfl
      · exact congrArg List.length (read_loop_chunks copyFault _ _ _ reply ran)

end Chunks

section Init

variable (env : InitEnv)

inductive InitRan : Ran → Prop where
  | failed (first second : List Resource) (status : Int) (error : status ≠ 0)
      (covered : ∀ resource, first.count resource ≤ second.count resource)
      (chunkless : ∀ number, .chunk number ∉ first ∧ .chunk number ∉ second)
      (twice : second.count .traceClass = 2 * first.count .traceClass) : InitRan ⟨taken first ++ given second, .returned status⟩
  | faulted : InitRan ⟨taken (Module.stuck env).registered, .fault⟩
  | succeeded : InitRan ⟨taken (Module.loaded env loaded []).registered, .returned 0⟩

theorem failed_labels (first second : List Resource) (status : Int) (error : status ≠ 0) (part : first.Subperm second)
    (chunkless : ∀ number, .chunk number ∉ second) (twice : second.count .traceClass = 2 * first.count .traceClass) :
    InitRan env ⟨taken first ++ given second, .returned status⟩ :=
  .failed first second status error (fun resource => part.count_le resource)
    (fun number => ⟨fun member => chunkless number (part.subset member), chunkless number⟩) twice

theorem trace_init_ran : InitRan env (traceInit env) := by
  simp only [traceInit]
  by_cases region : env.allocRegion < 0
  · rw [if_pos region]
    exact failed_labels env [] [] _ (Int.ne_of_lt region) (List.Subperm.refl _) (fun _ none => by cases none) rfl
  rw [if_neg region]
  by_cases cdev : env.cdevAdd < 0
  · rw [if_pos cdev]
    exact failed_labels env _ (freeDevNum env) _ (Int.ne_of_lt cdev) (List.Subperm.refl _) (by simp [freeDevNum]) (by simp [freeDevNum])
  rw [if_neg cdev]
  cases env.classCreate with
  | null => exact .faulted
  | errPtr error =>
      refine failed_labels env _ (deleteCdev env) _ ?_ ?_ (by simp [deleteCdev, freeDevNum]) (by simp [deleteCdev, freeDevNum])
      · rw [ptrErr]
        omega
      · exact (List.Perm.swap _ _ []).subperm
  | valid =>
      cases device : env.deviceCreate with
      | null =>
          refine failed_labels env _ (deleteClass env) _ (by decide) ?_ (by simp [deleteClass, deleteCdev, freeDevNum])
            (by simp [deleteClass, deleteCdev, freeDevNum, created])
          exact ((List.reverse_perm (created env)).symm.subperm).trans (List.sublist_cons_self _ _).subperm
      | errPtr error =>
          have stands : (Module.loaded env loaded []).registered = created env := by simp [Module.registered, device]
          exact stands ▸ .succeeded
      | valid =>
          have stands : (Module.loaded env loaded []).registered = created env ++ [.device env.devNum] := by
            simp [Module.registered, device]
          exact stands ▸ .succeeded

end Init

section Steps

variable (host : Host) (first second : List Resource) (module : Module) (kmallocs : Nat)

def Host.post : Host := ⟨module, host.log ++ (taken first ++ given second), kmallocs⟩

theorem post_held (resource : Resource) : (host.post first second module kmallocs).held resource =
    host.held resource + first.count resource - second.count resource := by
  rw [Host.held, Host.post, replay_append, replay_exchange]
  rfl

theorem post_acquired (resource : Resource) : (host.post first second module kmallocs).log.count (.acquired resource) =
    host.log.count (.acquired resource) + first.count resource := by
  rw [Host.post, List.count_append, count_acquired]

theorem post_released (resource : Resource) : (host.post first second module kmallocs).log.count (.released resource) =
    host.log.count (.released resource) + second.count resource := by
  rw [Host.post, List.count_append, count_released]

theorem post_taken : host.post first [] module kmallocs = ⟨module, host.log ++ taken first, kmallocs⟩ := by
  rw [Host.post, given, List.map_nil, List.append_nil]

theorem owned_count (env : InitEnv) (session : Session) (owned : List Nat) (number : Nat) :
    (Module.loaded env session owned).registered.count (.chunk number) = owned.count number := by
  have chunks : (owned.map Resource.chunk).count (.chunk number) = owned.count number :=
    List.count_map_of_injective owned Resource.chunk (fun _ _ same => Resource.chunk.inj same) number
  rw [Module.registered, List.count_append, chunks, List.count_eq_zero.mpr (by simp [created]), Nat.zero_add]

theorem class_count (env : InitEnv) (session : Session) (owned : List Nat) :
    (Module.loaded env session owned).registered.count .traceClass = 1 := by
  have chunks : (owned.map Resource.chunk).count .traceClass = 0 := List.count_eq_zero.mpr (by simp)
  rw [Module.registered, List.count_append, chunks]
  split <;> simp [created]

theorem load_kept (env : InitEnv) (kept : Kept host) (absent : host.module = .unloaded) :
    ∃ next, hostStep host (.load env) = some next ∧ Kept next := by
  have nothing (resource : Resource) : host.held resource = 0 := by
    rw [kept.held, absent]
    rfl
  have acquired := kept.acquired
  have released := kept.released
  have twice := kept.twice
  have ran := trace_init_ran env
  rw [absent] at released
  rw [nothing] at twice
  simp only [hostStep, absent]
  generalize traceInit env = log at ran ⊢
  refine ⟨_, rfl, ?_⟩
  cases ran with
  | failed first second status error covered chunkless balanced =>
      dsimp only
      rw [if_neg error]
      change Kept (host.post first second .unloaded host.kmallocs)
      refine ⟨fun _ _ _ there => (by cases there), fun resource => ?_, fun _ none => (by cases none), List.nodup_nil,
        fun number => ?_, fun number => ?_, ?_⟩
      · rw [post_held, nothing, Nat.zero_add]
        exact Nat.sub_eq_zero_of_le (covered resource)
      · rw [post_acquired, List.count_eq_zero.mpr (chunkless number).1]
        exact acquired number
      · rw [post_released, List.count_eq_zero.mpr (chunkless number).2]
        exact released number
      · have fewer := covered .traceClass
        rw [post_acquired, post_released, post_held, nothing]
        omega
  | faulted =>
      dsimp only
      rw [← post_taken host _ (.stuck env) host.kmallocs]
      refine ⟨fun _ _ _ there => (by cases there), fun resource => ?_, fun _ none => (by cases none), List.nodup_nil,
        fun number => ?_, fun number => ?_, ?_⟩
      · rw [post_held, nothing, Nat.zero_add]
        rfl
      · rw [post_acquired]
        exact acquired number
      · rw [post_released]
        exact released number
      · rw [post_acquired, post_released, post_held, nothing]
        exact twice
  | succeeded =>
      dsimp only
      rw [if_pos rfl, ← post_taken host _ (.loaded env loaded []) host.kmallocs]
      refine ⟨fun _ _ _ there => ?_, fun resource => ?_, fun _ none => (by cases none), List.nodup_nil, fun number => ?_,
        fun number => ?_, ?_⟩
      · cases there
        exact ⟨loaded_consistent, rfl⟩
      · rw [post_held, nothing, Nat.zero_add]
        rfl
      · rw [post_acquired, owned_count]
        exact acquired number
      · rw [post_released]
        exact released number
      · rw [post_acquired, post_released, post_held, nothing, class_count]
        rw [List.count_nil]
        omega

theorem registered_covered (env : InitEnv) (session : Session) (owned : List Nat) (resource : Resource) :
    (Module.loaded env session owned).registered.count resource ≤
      (.device env.devNum :: deleteClass env ++ traceBufferFree owned).count resource := by
  have labels : (created env).count resource ≤ (deleteClass env).count resource :=
    (((List.reverse_perm (created env)).symm.subperm).trans (List.sublist_cons_self _ _).subperm).count_le resource
  have device : (if env.deviceCreate = .valid then [Resource.device env.devNum] else []).count resource ≤
      [Resource.device env.devNum].count resource := by
    split
    · exact Nat.le_refl _
    · exact Nat.zero_le _
  have split : (.device env.devNum :: deleteClass env ++ traceBufferFree owned).count resource =
      [Resource.device env.devNum].count resource + (deleteClass env).count resource + (traceBufferFree owned).count resource := by
    rw [← List.singleton_append, List.count_append, List.count_append]
  rw [split, Module.registered, List.count_append, List.count_append, traceBufferFree]
  omega

theorem unload_kept (kept : Kept host) : ∃ next, hostStep host .unload = some next ∧ Kept next := by
  cases there : host.module with
  | unloaded | stuck =>
      simp only [hostStep, there]
      exact ⟨host, rfl, kept⟩
  | loaded env session owned =>
      have held := kept.held
      have acquired := kept.acquired
      have released := kept.released
      have twice := kept.twice
      have named := kept.named
      have distinct := kept.distinct
      rw [there] at held released named distinct
      simp only [hostStep, there]
      refine ⟨_, rfl, ?_⟩
      change Kept (host.post [] (.device env.devNum :: deleteClass env ++ traceBufferFree owned) .unloaded host.kmallocs)
      have chunk (number : Nat) : (.device env.devNum :: deleteClass env ++ traceBufferFree owned).count (.chunk number) =
          if number ∈ owned then 1 else 0 := by
        have chunks : (traceBufferFree owned).count (.chunk number) = owned.count number :=
          List.count_map_of_injective owned Resource.chunk (fun _ _ same => Resource.chunk.inj same) number
        rw [List.count_append, chunks, List.count_eq_zero.mpr (by simp [deleteClass, deleteCdev, freeDevNum]), Nat.zero_add]
        exact distinct.count
      have classes : (.device env.devNum :: deleteClass env ++ traceBufferFree owned).count .traceClass = 2 := by
        have chunks : (traceBufferFree owned).count .traceClass = 0 := List.count_eq_zero.mpr (by simp [traceBufferFree])
        rw [List.count_append, chunks]
        simp [deleteClass, deleteCdev, freeDevNum]
      refine ⟨fun _ _ _ here => (by cases here), fun resource => ?_, fun _ none => (by cases none), List.nodup_nil,
        fun number => ?_, fun number => ?_, ?_⟩
      · rw [post_held, held]
        exact Nat.sub_eq_zero_of_le (registered_covered env session owned resource)
      · rw [post_acquired]
        exact acquired number
      · rw [post_released, released, chunk]
        have below := named number
        by_cases here : number ∈ owned
        · have allocated := below here
          simp [Host.post, Module.owned, here, allocated]
        · simp [Host.post, Module.owned, here]
      · rw [held, class_count] at twice
        rw [post_acquired, post_released, post_held, held, class_count, classes]
        rw [List.count_nil]
        omega

theorem call_kept (call : TraceCall) (kept : Kept host) : ∃ next, hostStep host (.call call) = some next ∧ Kept next := by
  cases there : host.module with
  | unloaded | stuck =>
      simp only [hostStep, there]
      exact ⟨host, rfl, kept⟩
  | loaded env session owned =>
      obtain ⟨consistent, length⟩ := kept.session env session owned there
      obtain ⟨next, stepped, later⟩ := call_consistent session call consistent
      have grown := call_length session next call stepped
      have held := kept.held
      have acquired := kept.acquired
      have released := kept.released
      have twice := kept.twice
      have named := kept.named
      have distinct := kept.distinct
      rw [there] at held released named distinct
      simp only [hostStep, there, stepped, Option.map_some]
      refine ⟨_, rfl, ?_⟩
      cases took : takesChunk session call with
      | false =>
          rw [took, Bool.toNat_false, Nat.add_zero] at grown
          rw [if_neg Bool.false_ne_true]
          refine ⟨fun _ _ _ here => ?_, held, named, distinct, acquired, released, twice⟩
          cases here
          exact ⟨later, grown.trans length⟩
      | true =>
          rw [took, Bool.toNat_true] at grown
          rw [if_pos rfl, ← post_taken host _ (.loaded env next (owned ++ [host.kmallocs])) (host.kmallocs + 1)]
          have fresh : host.kmallocs ∉ owned := fun member => absurd (named _ member) (Nat.lt_irrefl _)
          refine ⟨fun _ _ _ here => ?_, fun resource => ?_, fun number member => ?_, ?_, fun number => ?_, fun number => ?_, ?_⟩
          · cases here
            exact ⟨later, by rw [grown, length, List.length_append, List.length_singleton]⟩
          · rw [post_held, held, List.count_nil, Nat.sub_zero]
            simp only [Host.post, Module.registered, List.map_append, List.map_cons, List.map_nil, List.count_append]
            omega
          · rcases List.mem_append.mp member with old | new
            · exact Nat.lt_succ_of_lt (named number old)
            · exact List.mem_singleton.mp new ▸ Nat.lt_succ_self _
          · exact (List.perm_append_singleton host.kmallocs owned).nodup_iff.mpr (List.nodup_cons.mpr ⟨fresh, distinct⟩)
          · rw [post_acquired, acquired, List.count_singleton]
            by_cases new : number = host.kmallocs
            · simp [Host.post, new]
            · have order : number < host.kmallocs + 1 ↔ number < host.kmallocs := by omega
              simp [Host.post, order, Ne.symm new]
          · rw [post_released, released, List.count_nil, Nat.add_zero]
            have same : (number < host.kmallocs ∧ number ∉ owned) ↔
                (number < host.kmallocs + 1 ∧ number ∉ owned ++ [host.kmallocs]) := by
              rw [List.mem_append, List.mem_singleton, not_or]
              constructor
              · rintro ⟨below, gone⟩
                exact ⟨by omega, gone, by omega⟩
              · rintro ⟨below, gone, other⟩
                exact ⟨by omega, gone⟩
            exact if_congr same rfl rfl
          · have none : [Resource.chunk host.kmallocs].count .traceClass = 0 := List.count_eq_zero.mpr (by simp)
            rw [post_acquired, post_released, post_held, none]
            exact twice

theorem step_kept (event : Event) (kept : Kept host) : ∃ next, hostStep host event = some next ∧ Kept next := by
  cases event with
  | load env =>
      cases there : host.module with
      | unloaded => exact load_kept host env kept there
      | loaded | stuck =>
          simp only [hostStep, there]
          exact ⟨host, rfl, kept⟩
  | unload => exact unload_kept host kept
  | call call => exact call_kept host call kept

end Steps

theorem bare_kept : Kept bareHost where
  session _ _ _ there := by cases there
  held _ := rfl
  named _ none := by cases none
  distinct := List.nodup_nil
  acquired _ := rfl
  released _ := rfl
  twice := rfl

structure Settled (host : Host) : Prop where
  nothing : host.module = .unloaded → ∀ resource, host.held resource = 0
  memory : ∀ env session owned, host.module = .loaded env session owned →
    owned.length = (session.accepted.length + (chunkSize - 1)) / chunkSize
  chunks : ∀ number, host.held (.chunk number) = if number ∈ host.module.owned then 1 else 0
  freed : ∀ number, host.log.count (.acquired (.chunk number)) ≤ 1 ∧
    host.log.count (.acquired (.chunk number)) = host.log.count (.released (.chunk number)) + host.held (.chunk number)
  twice : host.log.count (.released .traceClass) + 2 * host.held .traceClass = 2 * host.log.count (.acquired .traceClass)

theorem kept_chunks (host : Host) (kept : Kept host) (number : Nat) :
    host.held (.chunk number) = if number ∈ host.module.owned then 1 else 0 := by
  have distinct := kept.distinct
  rw [kept.held]
  cases there : host.module with
  | unloaded => rfl
  | stuck env => rfl
  | loaded env session owned =>
      rw [there] at distinct
      rw [owned_count]
      exact distinct.count

theorem kept_settled (host : Host) (kept : Kept host) : Settled host where
  nothing absent resource := by
    rw [kept.held, absent]
    rfl
  memory env session owned there := by
    obtain ⟨⟨queue, represents, entered, _⟩, length⟩ := kept.session env session owned there
    rw [← length, represents.filled, entered]
  chunks := kept_chunks host kept
  freed number := by
    have named := kept.named number
    rw [kept.acquired, kept.released, kept_chunks host kept]
    by_cases owned : number ∈ host.module.owned
    · rw [if_pos (named owned), if_neg fun both => both.2 owned, if_pos owned]
      exact ⟨Nat.le_refl _, rfl⟩
    · by_cases below : number < host.kmallocs
      · rw [if_pos below, if_pos ⟨below, owned⟩, if_neg owned]
        exact ⟨Nat.le_refl _, rfl⟩
      · rw [if_neg below, if_neg fun both => below both.1, if_neg owned]
        exact ⟨Nat.zero_le _, rfl⟩
  twice := kept.twice

-- However the module is loaded, called and unloaded: an unload frees each chunk
-- once and leaves nothing behind. The class alone is released twice.
theorem collector_owns_its_chunks (events : List Event) :
    ∃ host, Events.run hostStep bareHost events = some host ∧ Settled host := by
  obtain ⟨host, ran, kept⟩ := Events.run_total hostStep (fun _ _ => True) Kept (fun host event kept _ => step_kept host event kept)
    bareHost events bare_kept (Events.along_trivial hostStep bareHost events)
  exact ⟨host, ran, kept_settled host kept⟩

end CpuEmulator.TraceCollector
