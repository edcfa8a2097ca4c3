import CpuEmulator.Library.Events
import Mathlib.Logic.Function.Basic

set_option autoImplicit false

namespace CpuEmulator.Library

namespace Tokens

-- What an event means to a store of tokens: one is issued, one is spent, or all
-- that are left lose their validity.
inductive Mark where
  | issue | spend | reset | other
deriving DecidableEq

def creditStep : Nat → Mark → Option Nat
  | n, .issue => some (n + 1)
  | 0, .spend => none
  | n + 1, .spend => some n
  | _, .reset => some 0
  | n, .other => some n

structure Matching (marks : List Mark) (f : Nat → Nat) : Prop where
  issued : ∀ i, marks[i]? = some .spend → f i < i ∧ marks[f i]? = some .issue
  valid : ∀ i j, marks[i]? = some .spend → f i < j → j < i → marks[j]? ≠ some .reset
  distinct : ∀ i j, marks[i]? = some .spend → marks[j]? = some .spend → f i = f j → i = j

structure Unspent (marks : List Mark) (f : Nat → Nat) (u : Nat) : Prop where
  issued : marks[u]? = some .issue
  valid : ∀ j, u < j → marks[j]? ≠ some .reset
  unused : ∀ i, marks[i]? = some .spend → f i ≠ u

variable (marks : List Mark) (f : Nat → Nat)

theorem matching_snoc (mark : Mark) (notSpend : mark ≠ .spend) (matching : Matching marks f) :
    Matching (marks ++ [mark]) f := by
  have old (i : Nat) (spent : (marks ++ [mark])[i]? = some .spend) : marks[i]? = some .spend := by
    rcases (get_snoc marks mark .spend i).mp spent with before | ⟨_, same⟩
    · exact before
    · exact absurd same notSpend
  refine ⟨fun i spent => ?_, fun i j spent after before => ?_, fun i j first second => ?_⟩
  · obtain ⟨earlier, issued⟩ := matching.issued i (old i spent)
    exact ⟨earlier, (get_snoc marks mark .issue (f i)).mpr (Or.inl issued)⟩
  · intro reset
    rcases (get_snoc marks mark .reset j).mp reset with inside | ⟨last, _⟩
    · exact matching.valid i j (old i spent) after before inside
    · have bound := get_inside marks .spend i (old i spent)
      omega
  · exact matching.distinct i j (old i first) (old j second)

theorem unspent_snoc (mark : Mark) (notSpend : mark ≠ .spend) (notReset : mark ≠ .reset) (u : Nat)
    (unspent : Unspent marks f u) : Unspent (marks ++ [mark]) f u := by
  refine ⟨(get_snoc marks mark .issue u).mpr (Or.inl unspent.issued), fun j after reset => ?_, fun i spent => ?_⟩
  · rcases (get_snoc marks mark .reset j).mp reset with inside | ⟨_, same⟩
    · exact unspent.valid j after inside
    · exact notReset same
  · rcases (get_snoc marks mark .spend i).mp spent with before | ⟨_, same⟩
    · exact unspent.unused i before
    · exact absurd same notSpend

theorem issue_unspent (matching : Matching marks f) : Unspent (marks ++ [.issue]) f marks.length := by
  refine ⟨(get_snoc marks .issue .issue _).mpr (Or.inr ⟨rfl, rfl⟩), fun j after reset => ?_, fun i spent same => ?_⟩
  · rcases (get_snoc marks .issue .reset j).mp reset with inside | ⟨_, other⟩
    · have bound := get_inside marks .reset j inside
      omega
    · cases other
  · rcases (get_snoc marks .issue .spend i).mp spent with before | ⟨_, other⟩
    · have earlier := (matching.issued i before).1
      have bound := get_inside marks .spend i before
      omega
    · cases other

theorem spend_matching (u : Nat) (matching : Matching marks f) (unspent : Unspent marks f u) :
    Matching (marks ++ [.spend]) (Function.update f marks.length u) := by
  have bound := get_inside marks .issue u unspent.issued
  have old (i : Nat) (spent : (marks ++ [.spend])[i]? = some .spend) :
      marks[i]? = some .spend ∧ Function.update f marks.length u i = f i ∨
        i = marks.length ∧ Function.update f marks.length u i = u := by
    rcases (get_snoc marks .spend .spend i).mp spent with before | ⟨last, _⟩
    · have inside := get_inside marks .spend i before
      exact Or.inl ⟨before, Function.update_of_ne (Nat.ne_of_lt inside) u f⟩
    · exact Or.inr ⟨last, by rw [last, Function.update_self]⟩
  refine ⟨fun i spent => ?_, fun i j spent after before reset => ?_, fun i j first second same => ?_⟩
  · rcases old i spent with ⟨before, kept⟩ | ⟨last, taken⟩
    · obtain ⟨earlier, issued⟩ := matching.issued i before
      rw [kept]
      exact ⟨earlier, (get_snoc marks .spend .issue (f i)).mpr (Or.inl issued)⟩
    · rw [taken, last]
      exact ⟨bound, (get_snoc marks .spend .issue u).mpr (Or.inl unspent.issued)⟩
  · rcases (get_snoc marks .spend .reset j).mp reset with inside | ⟨_, other⟩
    · rcases old i spent with ⟨spentBefore, kept⟩ | ⟨_, taken⟩
      · rw [kept] at after
        exact matching.valid i j spentBefore after before inside
      · rw [taken] at after
        exact unspent.valid j after inside
    · cases other
  · rcases old i first with ⟨spentFirst, keptFirst⟩ | ⟨lastFirst, takenFirst⟩ <;>
      rcases old j second with ⟨spentSecond, keptSecond⟩ | ⟨lastSecond, takenSecond⟩
    · rw [keptFirst, keptSecond] at same
      exact matching.distinct i j spentFirst spentSecond same
    · rw [keptFirst, takenSecond] at same
      exact absurd same (unspent.unused i spentFirst)
    · rw [takenFirst, keptSecond] at same
      exact absurd same.symm (unspent.unused j spentSecond)
    · rw [lastFirst, lastSecond]

theorem spend_unspent (u v : Nat) (unspent : Unspent marks f v) (apart : v ≠ u) :
    Unspent (marks ++ [.spend]) (Function.update f marks.length u) v := by
  refine ⟨(get_snoc marks .spend .issue v).mpr (Or.inl unspent.issued), fun j after reset => ?_, fun i spent => ?_⟩
  · rcases (get_snoc marks .spend .reset j).mp reset with inside | ⟨_, other⟩
    · exact unspent.valid j after inside
    · cases other
  · rcases (get_snoc marks .spend .spend i).mp spent with before | ⟨last, _⟩
    · have inside := get_inside marks .spend i before
      rw [Function.update_of_ne (Nat.ne_of_lt inside)]
      exact unspent.unused i before
    · rw [last, Function.update_self]
      exact apart.symm

def Holds (marks : List Mark) (credit : Nat) : Prop :=
  ∃ (f : Nat → Nat) (unspent : List Nat), Matching marks f ∧ unspent.length = credit ∧ unspent.Nodup ∧ ∀ u ∈ unspent, Unspent marks f u

theorem holds_step (credit next : Nat) (mark : Mark) (holds : Holds marks credit)
    (stepped : creditStep credit mark = some next) : Holds (marks ++ [mark]) next := by
  obtain ⟨f, unspent, matching, length, nodup, all⟩ := holds
  cases mark with
  | issue =>
      obtain rfl := Option.some.inj stepped
      refine ⟨f, marks.length :: unspent, matching_snoc marks f _ (by decide) matching, by rw [List.length_cons, length],
        List.nodup_cons.mpr ⟨fun member => ?_, nodup⟩, fun u member => ?_⟩
      · exact Nat.lt_irrefl _ (get_inside marks .issue _ (all _ member).issued)
      · rcases List.mem_cons.mp member with rfl | old
        · exact issue_unspent marks f matching
        · exact unspent_snoc marks f _ (by decide) (by decide) u (all u old)
  | spend =>
      cases credit with
      | zero => cases stepped
      | succ credit =>
          obtain rfl := Option.some.inj stepped
          cases unspent with
          | nil => cases length
          | cons u rest =>
              obtain ⟨fresh, nodup⟩ := List.nodup_cons.mp nodup
              refine ⟨Function.update f marks.length u, rest, ?_, Nat.succ.inj length, nodup, fun v member => ?_⟩
              · exact spend_matching marks f u matching (all u List.mem_cons_self)
              · exact spend_unspent marks f u v (all v (List.mem_cons_of_mem u member))
                  fun same => fresh (same ▸ member)
  | reset =>
      obtain rfl := Option.some.inj stepped
      exact ⟨f, [], matching_snoc marks f _ (by decide) matching, rfl, List.nodup_nil,
        fun u member => absurd member List.not_mem_nil⟩
  | other =>
      obtain rfl := Option.some.inj stepped
      exact ⟨f, unspent, matching_snoc marks f _ (by decide) matching, length, nodup,
        fun u member => unspent_snoc marks f _ (by decide) (by decide) u (all u member)⟩

theorem credit_matching (final : Nat) (ran : Events.run creditStep 0 marks = some final) : ∃ f, Matching marks f := by
  have holds : Holds marks final := by
    apply Events.history_induction creditStep (fun _ _ => True) 0 Holds
    · exact ⟨id, [], ⟨fun i spent => (by cases spent), fun i j spent => (by cases spent), fun i j spent => (by cases spent)⟩, rfl,
        List.nodup_nil, fun u member => absurd member List.not_mem_nil⟩
    · intro soFar credit mark next _ held _ stepped
      exact holds_step soFar credit next mark held stepped
    · exact Events.along_trivial creditStep 0 marks
    · exact ran
  obtain ⟨f, _, matching, _⟩ := holds
  exact ⟨f, matching⟩

end Tokens

end CpuEmulator.Library
