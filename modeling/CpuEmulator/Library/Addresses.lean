import Mathlib.Logic.Function.Basic
import Mathlib.Data.List.Infix
import Mathlib.Data.List.Forall2

set_option autoImplicit false

namespace CpuEmulator.Library.Addresses

inductive Kind (κ : Type) where
  | blank
  | label (key : κ)
  | instruction
deriving DecidableEq, Repr

structure Table (κ : Type) where
  address : κ → Option Nat
  count : Nat

variable {κ ι : Type} [DecidableEq κ] (kind : ι → Kind κ)

-- The first pass: a label gets the number of instructions so far.
def assign (table : Table κ) (line : ι) : Table κ :=
  match kind line with
  | .blank => table
  | .label key => { table with address := Function.update table.address key (some table.count) }
  | .instruction => { table with count := table.count + 1 }

def resolve (lines : List ι) : Table κ := lines.foldl (assign kind) ⟨fun _ => none, 0⟩

def emitted (lines : List ι) : List ι := lines.filter (fun line => kind line = .instruction)

theorem emitted_append (before after : List ι) : emitted kind (before ++ after) = emitted kind before ++ emitted kind after :=
  List.filter_append before after

theorem emitted_other (line : ι) (lines : List ι) (other : kind line ≠ .instruction) :
    emitted kind (line :: lines) = emitted kind lines :=
  List.filter_cons_of_neg (fun same => other (of_decide_eq_true same))

theorem emitted_instruction (line : ι) (lines : List ι) (same : kind line = .instruction) :
    emitted kind (line :: lines) = line :: emitted kind lines :=
  List.filter_cons_of_pos (decide_eq_true same)

section Runs

variable (table : Table κ) (lines : List ι)

theorem assign_blank (line : ι) (same : kind line = .blank) : assign kind table line = table := by
  rw [assign, same]

theorem assign_label (line : ι) (key : κ) (same : kind line = .label key) :
    assign kind table line = { table with address := Function.update table.address key (some table.count) } := by
  rw [assign, same]

theorem assign_instruction (line : ι) (same : kind line = .instruction) :
    assign kind table line = { table with count := table.count + 1 } := by
  rw [assign, same]

theorem resolve_snoc (line : ι) : resolve kind (lines ++ [line]) = assign kind (resolve kind lines) line := by
  rw [resolve, List.foldl_append, List.foldl_cons, List.foldl_nil, resolve]

theorem count_assign (line : ι) : (assign kind table line).count = table.count + (emitted kind [line]).length := by
  cases same : kind line with
  | blank => rw [assign_blank kind table line same, emitted_other kind line [] (fun other => by cases same.symm.trans other)]; rfl
  | label key =>
      rw [assign_label kind table line key same, emitted_other kind line [] (fun other => by cases same.symm.trans other)]
      rfl
  | instruction => rw [assign_instruction kind table line same, emitted_instruction kind line [] same]; rfl

theorem count_run : (lines.foldl (assign kind) table).count = table.count + (emitted kind lines).length := by
  induction lines generalizing table with
  | nil => rfl
  | cons line lines ih =>
      rw [List.foldl_cons, ih, count_assign, Nat.add_assoc, ← List.length_append, ← emitted_append, List.singleton_append]

theorem count_resolve : (resolve kind lines).count = (emitted kind lines).length := by
  rw [resolve, count_run, Nat.zero_add]

theorem address_assign_other (line : ι) (key : κ) (other : kind line ≠ .label key) :
    (assign kind table line).address key = table.address key := by
  cases same : kind line with
  | blank => rw [assign_blank kind table line same]
  | label defined =>
      rw [assign_label kind table line defined same]
      exact Function.update_of_ne (fun equal => other (by rw [same, equal])) _ _
  | instruction => rw [assign_instruction kind table line same]

theorem address_assign_same (line : ι) (key : κ) (same : kind line = .label key) :
    (assign kind table line).address key = some table.count := by
  rw [assign_label kind table line key same]
  exact Function.update_self _ _ _

theorem address_run_other (key : κ) (other : ∀ line ∈ lines, kind line ≠ .label key) :
    (lines.foldl (assign kind) table).address key = table.address key := by
  induction lines generalizing table with
  | nil => rfl
  | cons line lines ih =>
      rw [List.foldl_cons, ih _ (fun later member => other later (List.mem_cons_of_mem _ member)),
        address_assign_other kind table line key (other line List.mem_cons_self)]

-- The last definition counts, with the instructions in front of it.
theorem address_last (before after : List ι) (line : ι) (key : κ) (defines : kind line = .label key)
    (last : ∀ later ∈ after, kind later ≠ .label key) :
    (resolve kind (before ++ line :: after)).address key = some (emitted kind before).length := by
  rw [resolve, List.foldl_append, List.foldl_cons, address_run_other kind _ after key last,
    address_assign_same kind _ line key defines, ← resolve, count_resolve]

theorem address_missing (key : κ) (missing : ∀ line ∈ lines, kind line ≠ .label key) :
    (resolve kind lines).address key = none := address_run_other kind _ lines key missing

theorem last_definition (key : κ) (defined : ∃ line ∈ lines, kind line = .label key) :
    ∃ before line after, lines = before ++ line :: after ∧ kind line = .label key ∧
      ∀ later ∈ after, kind later ≠ .label key := by
  induction lines with
  | nil =>
      obtain ⟨line, member, _⟩ := defined
      exact absurd member List.not_mem_nil
  | cons head lines ih =>
      by_cases again : ∃ line ∈ lines, kind line = .label key
      · obtain ⟨before, line, after, rfl, defines, last⟩ := ih again
        exact ⟨head :: before, line, after, rfl, defines, last⟩
      · obtain ⟨line, member, defines⟩ := defined
        obtain rfl | member := List.mem_cons.mp member
        · exact ⟨[], line, lines, rfl, defines, fun later inside same => again ⟨later, inside, same⟩⟩
        · exact absurd ⟨line, member, defines⟩ again

def DefinedAt (key : κ) (address : Nat) : Prop :=
  ∃ before line after, lines = before ++ line :: after ∧ kind line = .label key ∧ address = (emitted kind before).length

theorem defined_at_append (key : κ) (address : Nat) (later : List ι) (defined : DefinedAt kind lines key address) :
    DefinedAt kind (lines ++ later) key address := by
  obtain ⟨before, line, after, rfl, defines, counted⟩ := defined
  exact ⟨before, line, after ++ later, List.append_assoc _ _ _, defines, counted⟩

theorem defined_at_bound (key : κ) (address : Nat) (defined : DefinedAt kind lines key address) :
    address ≤ (emitted kind lines).length := by
  obtain ⟨before, line, after, rfl, _, rfl⟩ := defined
  rw [emitted_append, List.length_append]
  exact Nat.le_add_right _ _

theorem address_defined (key : κ) (defined : ∃ line ∈ lines, kind line = .label key) :
    ∃ address, (resolve kind lines).address key = some address ∧ address ≤ (emitted kind lines).length := by
  obtain ⟨before, line, after, rfl, defines, last⟩ := last_definition kind lines key defined
  exact ⟨(emitted kind before).length, address_last kind before after line key defines last,
    defined_at_bound kind _ key _ ⟨before, line, after, rfl, defines, rfl⟩⟩

end Runs

section Relabelling

def Kind.map {κ κ' : Type} (rename : κ → κ') : Kind κ → Kind κ'
  | .blank => .blank
  | .label key => .label (rename key)
  | .instruction => .instruction

structure Relabelled {κ κ' : Type} (rename : κ → κ') (table : Table κ) (other : Table κ') : Prop where
  address : ∀ key, other.address (rename key) = table.address key
  count : other.count = table.count

variable {κ' ι' : Type} [DecidableEq κ'] (kind' : ι' → Kind κ') (rename : κ → κ') (injective : Function.Injective rename)

include injective

theorem assign_relabelled (table : Table κ) (other : Table κ') (line : ι) (line' : ι') (same : kind' line' = (kind line).map rename)
    (relabelled : Relabelled rename table other) : Relabelled rename (assign kind table line) (assign kind' other line') := by
  cases known : kind line with
  | blank =>
      rw [known] at same
      rw [assign_blank kind table line known, assign_blank kind' other line' same]
      exact relabelled
  | label defined =>
      rw [known] at same
      rw [assign_label kind table line defined known, assign_label kind' other line' _ same]
      refine ⟨fun key => ?_, relabelled.count⟩
      dsimp only
      by_cases asked : key = defined
      · rw [asked, Function.update_self, Function.update_self, relabelled.count]
      · rw [Function.update_of_ne asked, Function.update_of_ne (fun equal => asked (injective equal)), relabelled.address]
  | instruction =>
      rw [known] at same
      rw [assign_instruction kind table line known, assign_instruction kind' other line' same]
      exact ⟨relabelled.address, congrArg (· + 1) relabelled.count⟩

theorem resolve_relabelled (lines : List ι) (lines' : List ι')
    (each : List.Forall₂ (fun line line' => kind' line' = (kind line).map rename) lines lines') :
    Relabelled rename (resolve kind lines) (resolve kind' lines') := by
  have run (table : Table κ) (other : Table κ') (relabelled : Relabelled rename table other) :
      Relabelled rename (lines.foldl (assign kind) table) (lines'.foldl (assign kind') other) := by
    induction each generalizing table other with
    | nil => exact relabelled
    | @cons line line' _ _ same _ ih =>
        rw [List.foldl_cons, List.foldl_cons]
        exact ih _ _ (assign_relabelled kind kind' rename injective table other line line' same relabelled)
  exact run _ _ ⟨fun _ => rfl, rfl⟩

end Relabelling

section Joining

theorem address_joined (front back : List ι) (key : κ) : (resolve kind (front ++ back)).address key =
    (((resolve kind back).address key).map ((emitted kind front).length + ·)).or ((resolve kind front).address key) := by
  induction back using List.reverseRecOn with
  | nil =>
      rw [List.append_nil]
      rfl
  | append_singleton back line ih =>
      rw [← List.append_assoc, resolve_snoc, resolve_snoc]
      by_cases defines : kind line = .label key
      · rw [address_assign_same kind _ line key defines, address_assign_same kind _ line key defines, count_resolve,
          count_resolve, emitted_append, List.length_append, Option.map_some, Option.some_or]
      · rw [address_assign_other kind _ line key defines, address_assign_other kind _ line key defines, ih]

end Joining

end CpuEmulator.Library.Addresses
