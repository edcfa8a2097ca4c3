import CpuEmulator.Library.Paging
import Mathlib.Logic.Function.Basic

set_option autoImplicit false

namespace CpuEmulator.Library.Lru

section Recency

variable {α : Type} [DecidableEq α]

-- The lines of one set, the most recently used first. A line beyond the last
-- way is gone.
def touch (ways : Nat) (line : α) (recency : List α) : List α := (line :: recency.erase line).take ways

theorem touch_hit (ways : Nat) (line : α) (recency : List α) (resident : line ∈ recency)
    (bounded : recency.length ≤ ways) : touch ways line recency = line :: recency.erase line := by
  have some := List.length_pos_of_mem resident
  apply List.take_of_length_le
  rw [List.length_cons, List.length_erase_of_mem resident]
  omega

theorem touch_miss (ways : Nat) (line : α) (recency : List α) (absent : line ∉ recency) :
    touch ways line recency = (line :: recency).take ways := by
  rw [touch, List.erase_of_not_mem absent]

theorem touch_fill (ways : Nat) (line : α) (recency : List α) (absent : line ∉ recency)
    (room : recency.length < ways) : touch ways line recency = line :: recency := by
  rw [touch_miss ways line recency absent]
  exact List.take_of_length_le room

theorem touch_replace (older : List α) (line oldest : α) (absent : line ∉ older ++ [oldest]) :
    touch (older.length + 1) line (older ++ [oldest]) = line :: older := by
  rw [touch_miss _ line _ absent, List.take_succ_cons, List.take_left]

structure Bounded (ways : Nat) (recency : List α) : Prop where
  distinct : recency.Nodup
  fits : recency.length ≤ ways

theorem touch_bounded (ways : Nat) (line : α) (recency : List α) (bounded : Bounded ways recency) :
    Bounded ways (touch ways line recency) := by
  refine ⟨List.Nodup.sublist (List.take_sublist _ _) ?_, List.length_take_le _ _⟩
  exact List.nodup_cons.mpr ⟨bounded.distinct.not_mem_erase, bounded.distinct.erase line⟩

theorem erase_take (line : α) (recency : List α) (ways : Nat) :
    ((recency.take (ways + 1)).erase line).take ways = (recency.erase line).take ways := by
  induction recency generalizing ways with
  | nil => rfl
  | cons head rest ih =>
      rw [List.take_succ_cons]
      by_cases same : head = line
      · subst same
        rw [List.erase_cons_head, List.erase_cons_head, List.take_take, Nat.min_self]
      · have apart : (head == line) = false := beq_eq_false_iff_ne.mpr same
        rw [List.erase_cons_tail (Bool.eq_false_iff.mp apart), List.erase_cons_tail (Bool.eq_false_iff.mp apart)]
        cases ways with
        | zero => rfl
        | succ ways => rw [List.take_succ_cons, List.take_succ_cons, ih]

theorem touch_take (fewer more : Nat) (order : fewer ≤ more) (line : α) (recency : List α) :
    (touch more line recency).take fewer = touch fewer line (recency.take fewer) := by
  rw [touch, touch, List.take_take, Nat.min_eq_left order]
  cases fewer with
  | zero => rfl
  | succ ways => rw [List.take_succ_cons, List.take_succ_cons, erase_take]

theorem touch_serves (ways : Nat) (line : α) (recency : List α) (positive : 0 < ways)
    (bounded : Bounded ways recency) : Paging.Serve ways (Paging.anyVictim []) recency.toFinset line
      (touch ways line recency).toFinset (if line ∈ recency then 0 else 1) := by
  have card := List.toFinset_card_of_nodup bounded.distinct
  by_cases resident : line ∈ recency
  · have same : (touch ways line recency).toFinset = recency.toFinset := by
      rw [touch_hit ways line recency resident bounded.fits]
      exact List.toFinset_eq_of_perm _ _ (List.perm_cons_erase resident).symm
    rw [same, if_pos resident]
    exact .hit (List.mem_toFinset.mpr resident)
  · have absent : line ∉ recency.toFinset := fun known => resident (List.mem_toFinset.mp known)
    rw [if_neg resident]
    by_cases room : recency.length < ways
    · rw [touch_fill ways line recency resident room, List.toFinset_cons]
      exact .fill absent (by omega)
    · have full : recency.length = ways := Nat.le_antisymm bounded.fits (Nat.le_of_not_lt room)
      obtain ⟨older, oldest, rfl⟩ : ∃ older oldest, recency = older ++ [oldest] :=
        (List.eq_nil_or_concat' recency).resolve_left (fun none => by rw [none, List.length_nil] at full; omega)
      rw [List.length_append, List.length_singleton] at full
      subst full
      rw [touch_replace older line oldest resident, List.toFinset_cons]
      have gone : older.toFinset = (older ++ [oldest]).toFinset.erase oldest := by
        have last := bounded.distinct
        rw [List.nodup_append_comm, List.singleton_append, List.nodup_cons] at last
        rw [List.toFinset_append, List.toFinset_cons, List.toFinset_nil, Finset.union_comm]
        exact (Finset.erase_insert (fun known => last.1 (List.mem_toFinset.mp known))).symm
      rw [gone]
      exact .replace oldest absent (card.trans List.length_append) (List.mem_toFinset.mpr (List.mem_append_right _ List.mem_cons_self)) trivial

end Recency

-- A set-associative cache under least recently used replacement, for numbered
-- lines: line n belongs to set n % sets. missed is what it passes on, in order.
structure Reference where
  recency : Nat → List Nat
  hits : Nat
  misses : Nat
  missed : List Nat

def empty : Reference := ⟨fun _ => [], 0, 0, []⟩

def Reference.holds (reference : Reference) (sets line : Nat) : Prop := line ∈ reference.recency (line % sets)

instance (reference : Reference) (sets line : Nat) : Decidable (reference.holds sets line) :=
  inferInstanceAs (Decidable (_ ∈ _))

def access (sets ways : Nat) (reference : Reference) (line : Nat) : Reference :=
  let touched := Function.update reference.recency (line % sets) (touch ways line (reference.recency (line % sets)))
  if reference.holds sets line then { reference with recency := touched, hits := reference.hits + 1 }
  else { reference with
    recency := touched, misses := reference.misses + 1, missed := reference.missed ++ [line] }

def run (sets ways : Nat) (stream : List Nat) : Reference := stream.foldl (access sets ways) empty

theorem run_snoc (sets ways : Nat) (stream : List Nat) (line : Nat) :
    run sets ways (stream ++ [line]) = access sets ways (run sets ways stream) line := by
  rw [run, List.foldl_append]
  rfl

theorem access_missed (sets ways : Nat) (reference : Reference) (line : Nat) :
    (access sets ways reference line).missed =
      reference.missed ++ if reference.holds sets line then [] else [line] := by
  simp only [access]
  split
  · exact (List.append_nil _).symm
  · rfl

theorem run_accounts (sets ways : Nat) (stream : List Nat) :
    (run sets ways stream).hits + (run sets ways stream).misses = stream.length ∧
      (run sets ways stream).missed.length = (run sets ways stream).misses := by
  induction stream using List.reverseRecOn with
  | nil => exact ⟨rfl, rfl⟩
  | append_singleton stream line ih =>
      obtain ⟨total, missed⟩ := ih
      rw [run_snoc, List.length_append, List.length_singleton]
      simp only [access]
      split
      · exact ⟨by dsimp only; omega, missed⟩
      · refine ⟨by dsimp only; omega, ?_⟩
        rw [List.length_append, List.length_singleton, missed]

theorem access_recency (sets ways : Nat) (reference : Reference) (line : Nat) :
    (access sets ways reference line).recency =
      Function.update reference.recency (line % sets) (touch ways line (reference.recency (line % sets))) := by
  simp only [access]
  split <;> rfl

theorem single_set_run (ways : Nat) (stream : List Nat) (positive : 0 < ways) :
    ∃ final, Paging.Run ways Paging.anyVictim ∅ stream final (run 1 ways stream).misses := by
  have general : ∀ reference : Reference, Bounded ways (reference.recency 0) →
      ∃ final paid, Paging.Run ways Paging.anyVictim (reference.recency 0).toFinset stream final paid ∧
        (stream.foldl (access 1 ways) reference).misses = reference.misses + paid := by
    induction stream with
    | nil =>
        intro reference _
        exact ⟨_, 0, .nil _, rfl⟩
    | cons line rest ih =>
        intro reference bounded
        have touched : (access 1 ways reference line).recency 0 = touch ways line (reference.recency 0) := by
          rw [access_recency, Nat.mod_one, Function.update_self]
        have next := ih (access 1 ways reference line) (by rw [touched]; exact touch_bounded ways line _ bounded)
        obtain ⟨final, paid, ran, total⟩ := next
        rw [touched] at ran
        refine ⟨final, _, .cons _ _ final line rest _ paid (touch_serves ways line _ positive bounded) ran, ?_⟩
        have cost : (access 1 ways reference line).misses =
            reference.misses + if line ∈ reference.recency 0 then 0 else 1 := by
          simp only [access, Reference.holds, Nat.mod_one]
          split <;> rfl
        rw [List.foldl_cons, total, cost, Nat.add_assoc]
  obtain ⟨final, paid, ran, total⟩ := general empty ⟨List.nodup_nil, Nat.zero_le _⟩
  refine ⟨final, ?_⟩
  rw [run, total]
  simp only [empty, Nat.zero_add]
  exact ran

end CpuEmulator.Library.Lru
