import CpuEmulator.Cache.Accounting
import CpuEmulator.Cache.LruHierarchy
import CpuEmulator.Library.StackDistance

set_option autoImplicit false

namespace CpuEmulator.Cache

open Library

section Arrived

variable (p : Parameters) (traces : List MemAccess)

def arrived (n : Nat) (lvl : Fin 3) : List Nat :=
  ((List.range n).filter (fun i => reachesAt p traces i lvl)).map (traceLine p traces)

-- The access of an iteration finds its line again at the level: it was there
-- before, and fewer other lines of its set than there are ways came behind it.
def Reused (n : Nat) (lvl : Fin 3) : Prop :=
  traceLine p traces n ∈ arrived p traces n lvl ∧
    Lru.reuseDistance (setCount p lvl) (traceLine p traces n) (arrived p traces n lvl) < p.assoc lvl

instance (n : Nat) (lvl : Fin 3) : Decidable (Reused p traces n lvl) :=
  inferInstanceAs (Decidable (_ ∧ _))

theorem arrived_succ (n : Nat) (lvl : Fin 3) : arrived p traces (n + 1) lvl =
    arrived p traces n lvl ++ if reachesAt p traces n lvl then [traceLine p traces n] else [] := by
  rw [arrived, List.range_succ, List.filter_append, List.map_append, arrived]
  cases here : reachesAt p traces n lvl with
  | true => simp [here]
  | false => simp [here]

variable (accepted : Accepted p) (lru : p.policy = .lru) (n : Nat) (lvl : Fin 3) (present : p.present lvl)
include accepted lru present

theorem arrived_stream (inTrace : n ≤ traces.length) (few : accessCalls p traces n < 2 ^ 32) :
    arrived p traces n lvl = streamTo p traces n lvl := by
  induction n with
  | zero =>
      cases lvl using level_cases with
      | l1 | l2 | l3 => rfl
  | succ n ih =>
      have fewer : accessCalls p traces n ≤ accessCalls p traces (n + 1) := Nat.le_add_right _ _
      have follows := run_follows p traces accepted lru n (by omega) (by omega)
      rw [arrived_succ, stream_succ p traces n (by omega), ih (by omega) (by omega), reachesAt,
        reaches_iff p traces n lvl accepted present lru few follows]

theorem reused_holds (inTrace : n < traces.length) (few : accessCalls p traces n < 2 ^ 32) :
    Reused p traces n lvl ↔ referenceHolds p traces n lvl := by
  rw [Reused, arrived_stream p traces accepted lru n lvl present (by omega) few, referenceHolds, referenceTo, reference,
    Lru.run_holds_iff]

theorem reused_served (inTrace : n < traces.length) (few : accessCalls p traces (n + 1) < 2 ^ 32)
    (reached : reachesAt p traces n lvl = true) :
    (served p traces n (simulate p traces n) lvl).hits =
      ((simulate p traces n).level lvl).hits + if Reused p traces n lvl then 1 else 0 := by
  have fewer : accessCalls p traces n ≤ accessCalls p traces (n + 1) := Nat.le_add_right _ _
  have follows := run_follows p traces accepted lru n (by omega) (by omega) lvl present
  have of := simulate_of_level p traces lvl accepted present n
  rw [(served_follows p traces n lvl of lru few reached follows).2]
  exact congrArg _ (if_congr (reused_holds p traces accepted lru n lvl present inTrace (by omega)).symm rfl rfl)

theorem reused_hits (inTrace : n ≤ traces.length) (few : accessCalls p traces n < 2 ^ 32) :
    ((simulate p traces n).level lvl).hits = Nat.count (fun i => reachesAt p traces i lvl = true ∧ Reused p traces i lvl) n := by
  induction n with
  | zero => exact Nat.eq_zero_of_add_eq_zero_right (level_counters p traces 0 lvl).1
  | succ n ih =>
      have fewer : accessCalls p traces n ≤ accessCalls p traces (n + 1) := Nat.le_add_right _ _
      rw [Nat.count_succ, ← ih (by omega) (by omega), simulate, step_level]
      cases here : reachesAt p traces n lvl with
      | true =>
          have reached : reaches p traces n (simulate p traces n) lvl = true := here
          rw [if_pos reached, reused_served p traces accepted lru n lvl present (by omega) few here]
          simp
      | false =>
          have passed : reaches p traces n (simulate p traces n) lvl = false := here
          simp [passed]

end Arrived

-- The hit counter of a level tells how many of the accesses that got to it were
-- reused in time, and the next access to get there is a hit exactly when it is.
theorem lru_hits_are_reuses (p : Parameters) (traces : List MemAccess) (accepted : Accepted p) (lru : p.policy = .lru) (n : Nat)
    (inTrace : n ≤ traces.length) (few : accessCalls p traces n < 2 ^ 32) (lvl : Fin 3) (present : p.present lvl) :
    ((simulate p traces n).level lvl).hits = Nat.count (fun i => reachesAt p traces i lvl = true ∧ Reused p traces i lvl) n ∧
      (n < traces.length → accessCalls p traces (n + 1) < 2 ^ 32 → reachesAt p traces n lvl = true →
        ((served p traces n (simulate p traces n) lvl).hits = ((simulate p traces n).level lvl).hits + 1 ↔
          Reused p traces n lvl)) := by
  refine ⟨reused_hits p traces accepted lru n lvl present inTrace few, fun more fewer reached => ?_⟩
  rw [reused_served p traces accepted lru n lvl present more fewer reached]
  by_cases here : Reused p traces n lvl
  · rw [if_pos here]
    exact iff_of_true rfl here
  · rw [if_neg here]
    exact iff_of_false (by omega) here

def twoWays : Parameters := ⟨1, 16, fun _ => 2, fun _ => 32, .lru⟩

-- Line 0 comes back behind one and then behind two other lines of its set.
theorem lru_hits_are_reuses_two_ways :
    ((simulate twoWays (readsAt [0, 16, 0, 32, 48, 0]) 6).level 0).hits = 1 := by
  rw [(lru_hits_are_reuses twoWays _ ⟨by decide, by decide, by decide, by decide⟩ rfl 6 (by decide) (by decide) 0 (by decide)).1]
  decide

end CpuEmulator.Cache
