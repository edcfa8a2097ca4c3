import Mathlib.Data.List.Count
import Mathlib.Data.List.Perm.Basic
import Mathlib.Logic.Function.Basic

set_option autoImplicit false

namespace CpuEmulator.Library

namespace Ledger

variable {ρ : Type} [DecidableEq ρ]

inductive Entry (ρ : Type) where
  | acquired (resource : ρ)
  | released (resource : ρ)
deriving DecidableEq

-- How often each resource is held. Releasing one that is not held changes nothing.
def post (held : ρ → Nat) : Entry ρ → ρ → Nat
  | .acquired resource => Function.update held resource (held resource + 1)
  | .released resource => Function.update held resource (held resource - 1)

def replay (held : ρ → Nat) (log : List (Entry ρ)) : ρ → Nat := log.foldl post held

def taken (resources : List ρ) : List (Entry ρ) := resources.map .acquired
def given (resources : List ρ) : List (Entry ρ) := resources.map .released

theorem replay_append (held : ρ → Nat) (first second : List (Entry ρ)) :
    replay held (first ++ second) = replay (replay held first) second := List.foldl_append

theorem replay_taken (held : ρ → Nat) (resources : List ρ) (resource : ρ) :
    replay held (taken resources) resource = held resource + resources.count resource := by
  induction resources generalizing held with
  | nil => rfl
  | cons first rest ih =>
      have step : replay held (taken (first :: rest)) resource = replay (post held (.acquired first)) (taken rest) resource := rfl
      rw [step, ih, List.count_cons, post]
      by_cases same : resource = first
      · rw [same, Function.update_self, if_pos (beq_self_eq_true _), Nat.add_assoc, Nat.add_comm 1]
      · rw [Function.update_of_ne same, if_neg (by simpa using Ne.symm same), Nat.add_zero]

theorem replay_given (held : ρ → Nat) (resources : List ρ) (resource : ρ) :
    replay held (given resources) resource = held resource - resources.count resource := by
  induction resources generalizing held with
  | nil => rfl
  | cons first rest ih =>
      have step : replay held (given (first :: rest)) resource = replay (post held (.released first)) (given rest) resource := rfl
      rw [step, ih, List.count_cons, post]
      by_cases same : resource = first
      · rw [same, Function.update_self, if_pos (beq_self_eq_true _), Nat.sub_sub, Nat.add_comm 1]
      · rw [Function.update_of_ne same, if_neg (by simpa using Ne.symm same), Nat.add_zero]

theorem replay_settled (held : ρ → Nat) (first second : List ρ) (same : first.Perm second) :
    replay held (taken first ++ given second) = held := by
  funext resource
  rw [replay_append, replay_given, replay_taken, same.count_eq, Nat.add_sub_cancel]

theorem replay_unreleased (held : ρ → Nat) (log : List (Entry ρ)) (resource : ρ) (kept : .released resource ∉ log) :
    held resource ≤ replay held log resource := by
  induction log generalizing held with
  | nil => exact Nat.le_refl _
  | cons entry rest ih =>
      obtain ⟨other, later⟩ := not_or.mp (mt List.mem_cons.mpr kept)
      refine Nat.le_trans ?_ (ih (post held entry) later)
      cases entry with
      | acquired r =>
          rw [post, Function.update_apply]
          split
          · rename_i same
            rw [same]
            exact Nat.le_succ _
          · exact Nat.le_refl _
      | released r =>
          have different : resource ≠ r := fun same => other (congrArg Entry.released same)
          exact Nat.le_of_eq (Function.update_of_ne different _ held).symm

theorem replay_exchange (held : ρ → Nat) (first second : List ρ) (resource : ρ) :
    replay held (taken first ++ given second) resource = held resource + first.count resource - second.count resource := by
  rw [replay_append, replay_given, replay_taken]

theorem count_acquired (first second : List ρ) (resource : ρ) :
    (taken first ++ given second).count (.acquired resource) = first.count resource := by
  have none : (given second).count (.acquired resource) = 0 := List.count_eq_zero.mpr (by simp [given])
  rw [List.count_append, none, Nat.add_zero, taken]
  exact List.count_map_of_injective first Entry.acquired (fun _ _ same => Entry.acquired.inj same) resource

theorem count_released (first second : List ρ) (resource : ρ) :
    (taken first ++ given second).count (.released resource) = second.count resource := by
  have none : (taken first).count (.released resource) = 0 := List.count_eq_zero.mpr (by simp [taken])
  rw [List.count_append, none, Nat.zero_add, given]
  exact List.count_map_of_injective second Entry.released (fun _ _ same => Entry.released.inj same) resource

end Ledger

end CpuEmulator.Library
