import CpuEmulator.Language.Sequencing

set_option autoImplicit false

namespace CpuEmulator.Language

open Library Assembler Driver Userspace

def leadsOn (items behind : List Item) : Statement → Bool
  | .branch _ label =>
      match Addresses.after Item.kind label.name items with
      | none => true
      | some rest => rest.length ≤ behind.length
  | _ => true

def forwardFrom (items : List Item) : List Item → Bool
  | [] => true
  | .label _ :: rest => forwardFrom items rest
  | .statement statement _ :: rest => leadsOn items rest statement && forwardFrom items rest

-- A source without loops: every branch leads to a place behind itself.
def Forward (items : List Item) : Prop := forwardFrom items items = true

instance (items : List Item) : Decidable (Forward items) := inferInstanceAs (Decidable (_ = true))

section Descent

variable (items : List Item) (forward : Forward items)

theorem forward_suffix (front rest : List Item) (holds : forwardFrom items (front ++ rest) = true) :
    forwardFrom items rest = true := by
  induction front with
  | nil => exact holds
  | cons item front ih =>
      cases item with
      | label name => exact ih holds
      | statement statement text => exact ih (Bool.and_eq_true_iff.mp holds).2

theorem forward_next (rest behind : List Item) (statement : Statement) (text : Text)
    (next : nextStatement rest = some (statement, text, behind)) (holds : forwardFrom items rest = true) :
    leadsOn items behind statement = true := by
  induction rest with
  | nil => cases next
  | cons item rest ih =>
      cases item with
      | label name => exact ih next holds
      | statement other line =>
          cases next
          exact (Bool.and_eq_true_iff.mp holds).1

theorem suffix_statements (rest behind : List Item) (suffix : rest <:+ behind) :
    (statementsOf rest).length ≤ (statementsOf behind).length := by
  obtain ⟨front, rfl⟩ := suffix
  rw [statements_of_append, List.length_append]
  exact Nat.le_add_left _ _

include forward

theorem step_descends (input : U64) (st next : SourceState) (inside : st.rest <:+ items)
    (ran : sourceStep items input st = .running next) : (statementsOf next.rest).length < (statementsOf st.rest).length := by
  rw [sourceStep] at ran
  cases found : nextStatement st.rest with
  | none =>
      rw [found] at ran
      cases ran
  | some step =>
      obtain ⟨statement, text, behind⟩ := step
      rw [found] at ran
      have less := congrArg List.length (next_statement_some st.rest behind statement text found).1
      rw [less, List.length_cons]
      refine Nat.lt_succ_of_le (suffix_statements next.rest behind ?_)
      rcases perform_rest items input { st with rest := behind } next statement ran with same | ⟨op, label, rfl, led⟩
      · rw [same]
      · obtain ⟨front, whole⟩ := inside
        have later : forwardFrom items (front ++ st.rest) = true := whole ▸ forward
        have leads := forward_next items st.rest behind _ text found (forward_suffix items front st.rest later)
        rw [leadsOn, led] at leads
        have after := Addresses.after_suffix Item.kind label.name items next.rest led
        have here := (place_next items st.rest ⟨front, whole⟩ _ text behind found).2.2
        exact List.suffix_of_suffix_length_le after here (of_decide_eq_true leads)

theorem forward_run_ends (inputs : Nat → U64) (memory : Nat → U8) (k : Nat) (enough : (statementsOf items).length < k) :
    ∃ stop, sourceRun items inputs memory k = .stopped stop := by
  cases reached : sourceRun items inputs memory k with
  | stopped stop => exact ⟨stop, rfl⟩
  | running st =>
      have bound := (Progress.iterate_descends _ (sourceStart memory items) (fun st => (statementsOf st.rest).length)
        (fun st => st.rest <:+ items) (List.suffix_refl items)
        (fun j st next inside ran =>
          ⟨step_descends items forward (inputs j) st next inside ran, step_suffix items (inputs j) st next inside ran⟩)
        k st reached).2
      have start : (sourceStart memory items).rest = items := rfl
      rw [start] at bound
      exact absurd (Nat.le_trans (Nat.le_add_left k _) bound) (Nat.not_le_of_lt enough)

end Descent

section JumpOver

-- JMP L
-- ADD R0, 1
-- L:
def jumpOver : List Item :=
  [.statement (.branch ⟨.jmp, rfl⟩ countLabel) ['J', 'M', 'P', ' ', 'L'], addOneItem, .label ['L']]

def jumpOverSource : SourceFile :=
  ⟨['J', 'M', 'P', ' ', 'L', '\n', 'A', 'D', 'D', ' ', 'R', '0', ',', ' ', '1', '\n', 'L', ':', '\n'], by decide⟩

theorem jump_over_runnable : Runnable jumpOverSource jumpOver where
  short := by decide
  listed := .cons _ _ _ _ (.statement _ ⟨0, 0, 0, 0, 0, true⟩ rfl rfl)
    (.cons _ _ _ _ (.statement _ ⟨0, 0, 0, 1, 0, true⟩ rfl rfl) (.cons _ _ _ _ (.label _ rfl (by decide)) .nil))
  closed := ⟨fun op label member => by
    rcases List.mem_cons.mp member with same | member
    · cases same
      exact ⟨.label ['L'], List.mem_cons_of_mem _ (List.mem_cons_of_mem _ List.mem_cons_self), rfl⟩
    · cases List.mem_singleton.mp member⟩
  above := ⟨fun target address member => by simp [statementsOf, jumpOver, addOneItem] at member,
    fun address source member => by simp [statementsOf, jumpOver, addOneItem] at member⟩
  fits := by decide

end JumpOver

-- main has gone on to the cache simulation when every statement and the HALT
-- could have had their pass, whatever is on the input line.
theorem forward_sources_end (alloc : Nat → Assembler.Memory) (allocates : Allocates alloc) (source : SourceFile)
    (items : List Item) (runnable : Runnable source items) (forward : Forward items) :
    ∃ program, parseAssembly alloc (some source) = .ok program ∧
      ∀ opening board envs, Opens opening → (∀ k, Succeeds (envs k)) → ∀ k, (statementsOf items).length < k →
        (∃ ended, runLoop (loaded program).text (loaded program).count envs (runStart opening board (loaded program).memory) k =
          .stopped ended) ∧
        mainAfter alloc (some source) opening board envs k = .exited exitSuccess true := by
  obtain ⟨program, returned⟩ := listing_returned alloc source items runnable.short runnable.listed allocates
  obtain ⟨compiled, texts⟩ := returned_compiled alloc source items program runnable.short runnable.listed runnable.closed returned
  refine ⟨program, returned, fun opening board envs opens succeeds k enough => ?_⟩
  have carries := loop_carries source items runnable program compiled texts opening board envs opens succeeds k
  have reports := loop_reports items program alloc source returned opening board envs k _ carries
  obtain ⟨stop, ended⟩ := forward_run_ends items forward (fun j => BitVec.ofInt 64 (envs j).read.input) blankMemory k enough
  rw [ended] at carries reports
  generalize runLoop _ _ envs _ k = client at carries ⊢
  generalize mainAfter alloc (some source) opening board envs k = main at reports ⊢
  cases carries with
  | stopped closes =>
      cases reports with
      | exited => exact ⟨⟨_, rfl⟩, rfl⟩

theorem forward_sources_end_jump_over :
    mainAfter freeMemory (some jumpOverSource) startedOpening darkBoard (fun _ => pressedEnv) 3 = .exited exitSuccess true := by
  obtain ⟨_, _, ends⟩ := forward_sources_end freeMemory (fun _ => ⟨rfl, rfl⟩) jumpOverSource jumpOver jump_over_runnable (by decide)
  exact (ends startedOpening darkBoard (fun _ => pressedEnv) ⟨by decide, rfl, by decide⟩
    (fun _ => ⟨rfl, rfl, rfl, rfl, Or.inr rfl⟩) 3 (by decide)).2

end CpuEmulator.Language
