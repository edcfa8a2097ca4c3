import Mathlib.Data.List.Perm.Basic

set_option autoImplicit false

namespace CpuEmulator.Library

-- Items spread over buckets, each to be found in the bucket of its place.
namespace Buckets

variable {ι : Type}

def bucket (buckets : List (List ι)) (i : Nat) : List ι := buckets.getD i []

def Placed (place : ι → Nat) (buckets : List (List ι)) : Prop := ∀ i, ∀ item ∈ bucket buckets i, place item = i

section Items

variable (buckets : List (List ι)) (i : Nat) (item : ι)

theorem bucket_modify (f : List ι → List ι) (j : Nat) (inside : j < buckets.length) :
    bucket (buckets.modify i f) j = if i = j then f (bucket buckets j) else bucket buckets j := by
  rw [bucket, List.getD_eq_getElem?_getD, List.getElem?_modify, List.getElem?_eq_getElem inside, bucket,
    List.getD_eq_getElem?_getD, List.getElem?_eq_getElem inside]
  rfl

theorem bucket_outside (outside : buckets.length ≤ i) : bucket buckets i = [] := by
  rw [bucket, List.getD_eq_getElem?_getD, List.getElem?_eq_none outside]
  rfl

theorem mem_flatten : item ∈ buckets.flatten ↔ ∃ i, item ∈ bucket buckets i := by
  rw [List.mem_flatten]
  constructor
  · rintro ⟨chain, member, inside⟩
    obtain ⟨i, bound, rfl⟩ := List.getElem_of_mem member
    refine ⟨i, ?_⟩
    rw [bucket, List.getD_eq_getElem?_getD, List.getElem?_eq_getElem bound]
    exact inside
  · rintro ⟨i, inside⟩
    by_cases bound : i < buckets.length
    · rw [bucket, List.getD_eq_getElem?_getD, List.getElem?_eq_getElem bound] at inside
      exact ⟨buckets[i], List.getElem_mem bound, inside⟩
    · rw [bucket_outside buckets i (Nat.le_of_not_lt bound)] at inside
      cases inside

theorem mem_placed (place : ι → Nat) (placed : Placed place buckets) :
    item ∈ buckets.flatten ↔ item ∈ bucket buckets (place item) := by
  rw [mem_flatten]
  refine ⟨fun ⟨i, inside⟩ => ?_, fun inside => ⟨_, inside⟩⟩
  rw [placed i item inside]
  exact inside

theorem modify_perm (f : List ι → List ι) (inside : i < buckets.length) :
    ∃ others, buckets.flatten.Perm (bucket buckets i ++ others) ∧ (buckets.modify i f).flatten.Perm (f (bucket buckets i) ++ others) := by
  induction buckets generalizing i with
  | nil => cases inside
  | cons first buckets ih =>
      cases i with
      | zero => exact ⟨buckets.flatten, .refl _, .refl _⟩
      | succ i =>
          obtain ⟨others, before, after⟩ := ih i (Nat.lt_of_succ_lt_succ inside)
          refine ⟨first ++ others, ?_, ?_⟩
          · exact (before.append_left first).trans (List.perm_append_comm_assoc _ _ _)
          · rw [List.modify_succ_cons]
            exact (after.append_left first).trans (List.perm_append_comm_assoc _ _ _)

theorem push_perm (inside : i < buckets.length) : (buckets.modify i (item :: ·)).flatten.Perm (item :: buckets.flatten) := by
  obtain ⟨others, before, after⟩ := modify_perm buckets i (item :: ·) inside
  exact after.trans (before.symm.cons item)

theorem placed_modify (place : ι → Nat) (placed : Placed place buckets) (f : List ι → List ι)
    (kept : ∀ item ∈ f (bucket buckets i), place item = i) : Placed place (buckets.modify i f) := by
  intro j item member
  by_cases inside : j < buckets.length
  · rw [bucket_modify buckets i f j inside] at member
    by_cases same : i = j
    · rw [if_pos same] at member
      rw [← same] at member ⊢
      exact kept item member
    · rw [if_neg same] at member
      exact placed j item member
  · rw [bucket_outside _ j (by rw [List.length_modify]; exact Nat.le_of_not_lt inside)] at member
    cases member

theorem placed_push (place : ι → Nat) (placed : Placed place buckets) (here : place item = i) :
    Placed place (buckets.modify i (item :: ·)) := by
  refine placed_modify buckets i place placed _ fun other member => ?_
  obtain rfl | member := List.mem_cons.mp member
  · exact here
  · exact placed i other member

end Items

theorem placed_empty (place : ι → Nat) (n : Nat) : Placed place (List.replicate n []) := by
  intro i item member
  by_cases inside : i < n
  · rw [bucket, List.getD_eq_getElem?_getD, List.getElem?_replicate, if_pos inside] at member
    cases member
  · rw [bucket_outside _ i (by rw [List.length_replicate]; exact Nat.le_of_not_lt inside)] at member
    cases member

end Buckets

end CpuEmulator.Library
