import Mathlib.Data.Finset.Card
import Mathlib.Data.Finset.Image
import Mathlib.Data.List.Infix
import Mathlib.Data.Nat.Count

set_option autoImplicit false

namespace CpuEmulator.Library.Paging

variable {α : Type} [DecidableEq α]

-- One request to a set of at most ways lines under demand replacement, with its
-- cost. Only a miss with the set full replaces a line; admits restricts which.
inductive Serve (ways : Nat) (admits : Finset α → α → Prop) (contents : Finset α) (request : α) :
    Finset α → Nat → Prop where
  | hit (resident : request ∈ contents) : Serve ways admits contents request contents 0
  | fill (absent : request ∉ contents) (room : contents.card < ways) :
      Serve ways admits contents request (insert request contents) 1
  | replace (victim : α) (absent : request ∉ contents) (full : contents.card = ways) (resident : victim ∈ contents)
      (admitted : admits contents victim) : Serve ways admits contents request (insert request (contents.erase victim)) 1

inductive Run (ways : Nat) (admits : List α → Finset α → α → Prop) : Finset α → List α → Finset α → Nat → Prop where
  | nil (contents : Finset α) : Run ways admits contents [] contents 0
  | cons (contents next final : Finset α) (request : α) (rest : List α) (cost later : Nat)
      (served : Serve ways (admits rest) contents request next cost) (ran : Run ways admits next rest final later) :
      Run ways admits contents (request :: rest) final (cost + later)

theorem serve_mono (ways : Nat) (admits allows : Finset α → α → Prop) (contents next : Finset α) (request : α) (cost : Nat)
    (weaker : ∀ victim, admits contents victim → allows contents victim)
    (served : Serve ways admits contents request next cost) : Serve ways allows contents request next cost := by
  cases served with
  | hit resident => exact .hit resident
  | fill absent room => exact .fill absent room
  | replace victim absent full resident admitted => exact .replace victim absent full resident (weaker victim admitted)

def anyVictim (_ : List α) (_ : Finset α) (_ : α) : Prop := True

-- idxOf is the length of the list for a line that does not occur in it, so a
-- line never requested again counts as the latest.
def Furthest (rest : List α) (contents : Finset α) (victim : α) : Prop :=
  ∀ line ∈ contents, rest.idxOf line ≤ rest.idxOf victim

def soon (rest : List α) (window : Nat) : Finset α := (rest.take window).toFinset

theorem soon_cons (request : α) (rest : List α) (window : Nat) :
    soon (request :: rest) (window + 1) = insert request (soon rest window) := by
  rw [soon, List.take_succ_cons, List.toFinset_cons, soon]

theorem mem_soon (rest : List α) (window : Nat) (line : α) :
    line ∈ soon rest window ↔ rest.idxOf line < rest.length ∧ rest.idxOf line < window := by
  rw [soon, List.mem_toFinset, List.idxOf_lt_length_iff]
  constructor
  · intro present
    have known := List.mem_of_mem_take present
    exact ⟨known, (List.mem_take_iff_idxOf_lt known).mp present⟩
  · intro found
    exact (List.mem_take_iff_idxOf_lt found.1).mpr found.2

theorem furthest_covers (rest : List α) (contents : Finset α) (victim : α) (furthest : Furthest rest contents victim)
    (window : Nat) (used : victim ∈ soon rest window) : contents ⊆ soon rest window := by
  intro line resident
  have earlier := furthest line resident
  rw [mem_soon] at used ⊢
  omega

theorem furthest_prefix (rest more : List α) (contents : Finset α) (victim : α)
    (furthest : Furthest (rest ++ more) contents victim) : Furthest rest contents victim := by
  intro line resident
  have earlier := furthest line resident
  by_cases known : victim ∈ rest
  · rw [List.idxOf_append_of_mem known] at earlier
    by_cases present : line ∈ rest
    · rwa [List.idxOf_append_of_mem present] at earlier
    · rw [List.idxOf_append_of_notMem present] at earlier
      have before := List.idxOf_lt_length_iff.mpr known
      omega
  · rw [List.idxOf_eq_length_iff.mpr known]
    exact List.idxOf_le_length

section Counting

variable (contents window : Finset α) (line : α)

theorem card_inter_insert :
    (contents ∩ insert line window).card = (contents ∩ window).card + if line ∈ contents ∧ line ∉ window then 1 else 0 := by
  by_cases resident : line ∈ contents
  · rw [Finset.inter_insert_of_mem resident]
    by_cases used : line ∈ window
    · rw [if_neg (fun both => both.2 used), Finset.insert_eq_of_mem (Finset.mem_inter.mpr ⟨resident, used⟩), Nat.add_zero]
    · rw [if_pos ⟨resident, used⟩, Finset.card_insert_of_notMem (fun both => used (Finset.mem_inter.mp both).2)]
  · rw [Finset.inter_insert_of_notMem resident, if_neg (fun both => resident both.1), Nat.add_zero]

theorem card_insert_inter (absent : line ∉ contents) :
    (insert line contents ∩ window).card = (contents ∩ window).card + if line ∈ window then 1 else 0 := by
  by_cases used : line ∈ window
  · rw [Finset.insert_inter_of_mem used, if_pos used,
      Finset.card_insert_of_notMem (fun both => absent (Finset.mem_inter.mp both).1)]
  · rw [Finset.insert_inter_of_notMem used, if_neg used, Nat.add_zero]

theorem card_erase_inter (resident : line ∈ contents) :
    (contents.erase line ∩ window).card + (if line ∈ window then 1 else 0) = (contents ∩ window).card := by
  have parts := card_insert_inter (contents.erase line) window line (Finset.notMem_erase line contents)
  rw [Finset.insert_erase resident] at parts
  exact parts.symm

theorem card_replace (victim : α) (absent : line ∉ contents) (resident : victim ∈ contents) :
    (insert line (contents.erase victim)).card = contents.card := by
  rw [Finset.card_insert_of_notMem (fun kept => absent (Finset.mem_of_mem_erase kept)), Finset.card_erase_of_mem resident]
  have some := Finset.card_pos.mpr ⟨victim, resident⟩
  omega

end Counting

-- What the contents best, kept by Furthest, and those of a competitor share after
-- the same requests: within every window of the future, the lines on which the
-- competitor is ahead have already cost it as many misses.
structure Ahead (ways : Nat) (rest : List α) (best other : Finset α) (bestCost otherCost : Nat) : Prop where
  same : best.card = other.card
  bounded : best.card ≤ ways
  filling : best.card < ways → best = other
  leads : ∀ window, (other ∩ soon rest window).card + bestCost ≤ (best ∩ soon rest window).card + otherCost

theorem ahead_empty (ways : Nat) (rest : List α) : Ahead ways rest ∅ ∅ 0 0 :=
  ⟨rfl, Nat.zero_le _, fun _ => rfl, fun _ => Nat.le_refl _⟩

theorem ahead_costs (ways : Nat) (rest : List α) (best other : Finset α) (bestCost otherCost : Nat)
    (ahead : Ahead ways rest best other bestCost otherCost) : bestCost ≤ otherCost := by
  have now := ahead.leads 0
  simp only [soon, List.take_zero, List.toFinset_nil, Finset.inter_empty, Finset.card_empty] at now
  omega

section Exchange

variable (ways : Nat) (rest : List α) (request : α) (best other : Finset α) (bestCost otherCost : Nat)

theorem leads_through (ahead : Ahead ways (request :: rest) best other bestCost otherCost) (window : Nat) :
    (other ∩ soon rest window).card + (if request ∈ other ∧ request ∉ soon rest window then 1 else 0) + bestCost ≤
      (best ∩ soon rest window).card + (if request ∈ best ∧ request ∉ soon rest window then 1 else 0) + otherCost := by
  have lead := ahead.leads (window + 1)
  rwa [soon_cons, card_inter_insert, card_inter_insert] at lead

theorem missed_means_full (ahead : Ahead ways (request :: rest) best other bestCost otherCost)
    (apart : request ∈ other) (absent : request ∉ best) : best.card = ways ∧ bestCost + 1 ≤ otherCost := by
  constructor
  · by_contra room
    have bounded := ahead.bounded
    rw [ahead.filling (by omega)] at absent
    exact absent apart
  · have lead := leads_through ways rest request best other bestCost otherCost ahead 0
    simp only [soon, List.take_zero, List.toFinset_nil, Finset.inter_empty, Finset.card_empty, Finset.notMem_empty,
      not_false_eq_true, and_true, if_pos apart, if_neg absent] at lead
    omega

-- Evicting a line that is not used within the window costs nothing there;
-- evicting one that is means that the window uses all of them.
theorem replaced_covers (victim : α) (absent : request ∉ best) (resident : victim ∈ best)
    (furthest : Furthest rest best victim) (window : Nat) :
    (insert request (best.erase victim) ∩ soon rest window).card =
        (best ∩ soon rest window).card + (if request ∈ soon rest window then 1 else 0) ∨
      (insert request (best.erase victim) ∩ soon rest window).card + 1 =
          best.card + (if request ∈ soon rest window then 1 else 0) ∧
        (best ∩ soon rest window).card = best.card := by
  have added := card_insert_inter (best.erase victim) (soon rest window) request
    (fun kept => absent (Finset.mem_of_mem_erase kept))
  have removed := card_erase_inter best (soon rest window) victim resident
  by_cases used : victim ∈ soon rest window
  · have covered := furthest_covers rest best victim furthest window used
    rw [Finset.inter_eq_left.mpr covered] at removed ⊢
    rw [if_pos used] at removed
    exact Or.inr ⟨by omega, rfl⟩
  · rw [if_neg used] at removed
    exact Or.inl (by omega)

theorem miss_gains (admits : Finset α → α → Prop) (next : Finset α) (cost : Nat)
    (served : Serve ways admits other request next cost) (absent : request ∉ other) (window : Nat) :
    cost = 1 ∧
      (next ∩ soon rest window).card ≤ (other ∩ soon rest window).card + (if request ∈ soon rest window then 1 else 0) ∧
      (other.card = ways → (next ∩ soon rest window).card + 1 ≤ ways + (if request ∈ soon rest window then 1 else 0)) := by
  cases served with
  | hit resident => exact absurd resident absent
  | fill _ room =>
      have added := card_insert_inter other (soon rest window) request absent
      exact ⟨rfl, by omega, fun full => by omega⟩
  | replace victim _ full resident _ =>
      have added := card_insert_inter (other.erase victim) (soon rest window) request
        (fun kept => absent (Finset.mem_of_mem_erase kept))
      have removed := card_erase_inter other (soon rest window) victim resident
      have smaller : (other.erase victim ∩ soon rest window).card ≤ _ := Finset.card_le_card Finset.inter_subset_left
      rw [Finset.card_erase_of_mem resident] at smaller
      have some := Finset.card_pos.mpr ⟨victim, resident⟩
      exact ⟨rfl, by omega, fun _ => by omega⟩

variable (admits : Finset α → α → Prop) (bestNext otherNext : Finset α) (bestPaid otherPaid : Nat)

theorem hit_keeps_ahead (ahead : Ahead ways (request :: rest) best other bestCost otherCost) (resident : request ∈ best)
    (served : Serve ways admits other request otherNext otherPaid) :
    Ahead ways rest best otherNext bestCost (otherCost + otherPaid) := by
  by_cases shared : request ∈ other
  · cases served with
    | hit _ =>
        refine ⟨ahead.same, ahead.bounded, ahead.filling, fun window => ?_⟩
        have lead := leads_through ways rest request best other bestCost otherCost ahead window
        simp only [resident, shared, true_and] at lead
        omega
    | fill absent _ | replace _ absent _ _ _ => exact absurd shared absent
  · have full : best.card = ways := by
      by_contra room
      have bounded := ahead.bounded
      rw [← ahead.filling (by omega)] at shared
      exact shared resident
    have gains := miss_gains ways rest request other admits otherNext otherPaid served shared
    refine ⟨?_, ahead.bounded, fun room => absurd full (Nat.ne_of_lt room), fun window => ?_⟩
    · cases served with
      | hit known => exact absurd known shared
      | fill _ room =>
          have same := ahead.same
          omega
      | replace victim absent _ known _ => rw [card_replace other request victim absent known, ahead.same]
    · obtain ⟨rfl, gained, _⟩ := gains window
      have lead := leads_through ways rest request best other bestCost otherCost ahead window
      by_cases used : request ∈ soon rest window
      · simp only [used, not_true, and_false, if_true, if_false] at lead gained
        omega
      · simp only [used, shared, resident, not_false_eq_true, and_true, if_true, if_false] at lead gained
        omega

theorem fill_keeps_ahead (ahead : Ahead ways (request :: rest) best other bestCost otherCost) (absent : request ∉ best)
    (room : best.card < ways) (served : Serve ways admits other request otherNext otherPaid) :
    Ahead ways rest (insert request best) otherNext (bestCost + 1) (otherCost + otherPaid) := by
  have costs := ahead_costs ways _ best other bestCost otherCost ahead
  obtain rfl := ahead.filling room
  cases served with
  | hit resident => exact absurd resident absent
  | fill _ _ =>
      refine ⟨rfl, ?_, fun _ => rfl, fun _ => by omega⟩
      rw [Finset.card_insert_of_notMem absent]
      exact room
  | replace _ _ full _ _ => exact absurd full (Nat.ne_of_lt room)

theorem replace_keeps_ahead (ahead : Ahead ways (request :: rest) best other bestCost otherCost) (victim : α)
    (absent : request ∉ best) (full : best.card = ways) (resident : victim ∈ best) (furthest : Furthest rest best victim)
    (served : Serve ways admits other request otherNext otherPaid) :
    Ahead ways rest (insert request (best.erase victim)) otherNext (bestCost + 1) (otherCost + otherPaid) := by
  have replaced := card_replace best request victim absent resident
  have same := ahead.same
  have covers := replaced_covers rest request best victim absent resident furthest
  have through := leads_through ways rest request best other bestCost otherCost ahead
  by_cases shared : request ∈ other
  · obtain ⟨_, paid⟩ := missed_means_full ways rest request best other bestCost otherCost ahead shared absent
    cases served with
    | hit _ =>
        refine ⟨by omega, by omega, fun room => by omega, fun window => ?_⟩
        have lead := through window
        have most : (other ∩ soon rest window).card ≤ _ := Finset.card_le_card Finset.inter_subset_left
        have most' : (other.erase request ∩ soon rest window).card ≤ _ := Finset.card_le_card Finset.inter_subset_left
        have without := card_erase_inter other (soon rest window) request shared
        rw [Finset.card_erase_of_mem shared] at most'
        have covered := covers window
        by_cases used : request ∈ soon rest window
        · simp only [used, not_true, and_false, if_true, if_false] at lead without covered
          omega
        · simp only [used, shared, absent, not_false_eq_true, and_true, if_true, if_false] at lead without covered
          omega
    | fill missing _ | replace _ missing _ _ _ => exact absurd shared missing
  · have costs := ahead_costs ways _ best other bestCost otherCost ahead
    have gains := miss_gains ways rest request other admits otherNext otherPaid served shared
    refine ⟨?_, by omega, fun room => by omega, fun window => ?_⟩
    · cases served with
      | hit known => exact absurd known shared
      | fill _ room => omega
      | replace other' missing _ known _ => rw [card_replace other request other' missing known, replaced, same]
    · obtain ⟨rfl, gained, gainedFull⟩ := gains window
      have lead := through window
      have covered := covers window
      simp only [shared, absent, false_and, if_false] at lead
      omega

theorem serve_keeps_ahead (ahead : Ahead ways (request :: rest) best other bestCost otherCost)
    (bestServed : Serve ways (Furthest rest) best request bestNext bestPaid)
    (otherServed : Serve ways admits other request otherNext otherPaid) :
    Ahead ways rest bestNext otherNext (bestCost + bestPaid) (otherCost + otherPaid) := by
  cases bestServed with
  | hit resident =>
      exact hit_keeps_ahead ways rest request best other bestCost otherCost admits otherNext otherPaid ahead resident otherServed
  | fill absent room =>
      exact fill_keeps_ahead ways rest request best other bestCost otherCost admits otherNext otherPaid ahead absent room
        otherServed
  | replace victim absent full resident furthest =>
      exact replace_keeps_ahead ways rest request best other bestCost otherCost admits otherNext otherPaid ahead victim absent
        full resident furthest otherServed

end Exchange

theorem runs_stay_ahead (ways : Nat) (admits : List α → Finset α → α → Prop) (stream : List α)
    (best bestFinal other otherFinal : Finset α) (bestCost otherCost bestPaid otherPaid : Nat)
    (ahead : Ahead ways stream best other bestCost otherCost)
    (bestRan : Run ways Furthest best stream bestFinal bestPaid)
    (otherRan : Run ways admits other stream otherFinal otherPaid) :
    bestCost + bestPaid ≤ otherCost + otherPaid := by
  induction bestRan generalizing other bestCost otherCost otherPaid with
  | nil contents =>
      cases otherRan with
      | nil => exact ahead_costs ways _ _ _ bestCost otherCost ahead
  | cons contents next final request rest cost later served _ ih =>
      cases otherRan with
      | cons _ otherNext _ _ _ otherStep otherLater otherServed otherRest =>
          have stepped := serve_keeps_ahead ways rest request contents other bestCost otherCost (admits rest) next otherNext
            cost otherStep ahead served otherServed
          have rested := ih otherNext (bestCost + cost) (otherCost + otherStep) otherLater stepped otherRest
          omega

-- From an empty set of lines, no demand replacement misses less often than the
-- one that always gives up the line needed furthest ahead.
theorem furthest_run_is_optimal (ways : Nat) (admits : List α → Finset α → α → Prop) (stream : List α)
    (bestFinal otherFinal : Finset α) (bestPaid otherPaid : Nat) (bestRan : Run ways Furthest ∅ stream bestFinal bestPaid)
    (otherRan : Run ways admits ∅ stream otherFinal otherPaid) : bestPaid ≤ otherPaid := by
  have ahead := runs_stay_ahead ways admits stream ∅ bestFinal ∅ otherFinal 0 0 bestPaid otherPaid
    (ahead_empty ways stream) bestRan otherRan
  omega

section Demand

-- A store that takes in only what it is asked for and never holds more than its
-- capacity. What it gives up, and when, is left open.
inductive Demand (capacity : Nat) : Finset α → List α → Finset α → Nat → Prop where
  | nil (contents : Finset α) : Demand capacity contents [] contents 0
  | cons (contents next final : Finset α) (request : α) (rest : List α) (later : Nat)
      (taken : next ⊆ insert request contents) (held : request ∈ next) (bounded : next.card ≤ capacity)
      (ran : Demand capacity next rest final later) :
      Demand capacity contents (request :: rest) final ((if request ∈ contents then 0 else 1) + later)

variable (ways capacity : Nat) (small smallNext big : Finset α) (request : α)

-- Where all is kept that the store keeps, a miss that finds no room gives up a
-- line that the store has not kept either.
theorem serve_beside (room : capacity ≤ ways) (within : small ⊆ big) (bounded : big.card ≤ ways)
    (taken : smallNext ⊆ insert request small) (held : request ∈ smallNext) (fits : smallNext.card ≤ capacity) :
    ∃ bigNext, Serve ways (anyVictim []) big request bigNext (if request ∈ big then 0 else 1) ∧
      smallNext ⊆ bigNext ∧ bigNext.card ≤ ways := by
  have most : smallNext ⊆ insert request big := taken.trans (Finset.insert_subset_insert request within)
  by_cases resident : request ∈ big
  · rw [if_pos resident]
    rw [Finset.insert_eq_of_mem resident] at most
    exact ⟨big, .hit resident, most, bounded⟩
  · rw [if_neg resident]
    by_cases space : big.card < ways
    · refine ⟨insert request big, .fill resident space, most, ?_⟩
      rw [Finset.card_insert_of_notMem resident]
      exact space
    · have fewer : (smallNext.erase request).card < big.card := by
        have some := Finset.card_pos.mpr ⟨request, held⟩
        rw [Finset.card_erase_of_mem held]
        omega
      obtain ⟨victim, known, given⟩ := Finset.exists_mem_notMem_of_card_lt_card fewer
      have other : victim ≠ request := fun same => resident (same ▸ known)
      have gone : victim ∉ smallNext := fun kept => given (Finset.mem_erase.mpr ⟨other, kept⟩)
      refine ⟨insert request (big.erase victim), .replace victim resident (by omega) known trivial, ?_, ?_⟩
      · intro line kept
        rcases Finset.mem_insert.mp (most kept) with rfl | old
        · exact Finset.mem_insert_self _ _
        · exact Finset.mem_insert_of_mem (Finset.mem_erase.mpr ⟨fun same => gone (same ▸ kept), old⟩)
      · rw [card_replace big request victim resident known]
        exact bounded

theorem run_beside (stream : List α) (smallFinal : Finset α) (cost : Nat) (room : capacity ≤ ways) (within : small ⊆ big)
    (bounded : big.card ≤ ways) (ran : Demand capacity small stream smallFinal cost) :
    ∃ final paid, Run ways anyVictim big stream final paid ∧ paid ≤ cost := by
  induction ran generalizing big with
  | nil contents => exact ⟨big, 0, .nil big, Nat.le_refl 0⟩
  | cons contents next final request rest later taken held fits _ ih =>
      obtain ⟨bigNext, served, kept, bounded⟩ :=
        serve_beside ways capacity contents next big request room within bounded taken held fits
      obtain ⟨bigFinal, paid, rested, less⟩ := ih bigNext kept bounded
      refine ⟨bigFinal, _, .cons big bigNext bigFinal request rest _ paid served rested, ?_⟩
      by_cases here : request ∈ contents
      · rw [if_pos here, if_pos (within here)]
        omega
      · rw [if_neg here]
        split <;> omega

theorem furthest_run_beats_demand (stream : List α) (final otherFinal : Finset α) (paid cost : Nat) (room : capacity ≤ ways)
    (ran : Run ways Furthest ∅ stream final paid) (other : Demand capacity ∅ stream otherFinal cost) : paid ≤ cost := by
  obtain ⟨besideFinal, beside, besideRan, less⟩ :=
    run_beside ways capacity ∅ ∅ stream otherFinal cost room (Finset.Subset.refl _) (Nat.zero_le _) other
  exact (furthest_run_is_optimal ways anyVictim stream final besideFinal paid beside ran besideRan).trans less

end Demand

structure Strategy (α : Type) [DecidableEq α] where
  victim : List α → List α → Finset α → α
  resident : ∀ history trace contents, contents.Nonempty → victim history trace contents ∈ contents

namespace Strategy

def step (strategy : Strategy α) (ways : Nat) (history trace : List α) (contents : Finset α) (request : α) : Finset α :=
  if request ∈ contents then contents
  else if contents.card < ways then insert request contents
  else insert request (contents.erase (strategy.victim history trace contents))

def missesFrom (strategy : Strategy α) (ways : Nat) (trace : List α) : List α → Finset α → List α → Nat
  | _, _, [] => 0
  | history, contents, request :: rest =>
      (if request ∈ contents then 0 else 1) +
        strategy.missesFrom ways trace (history ++ [request])
          (strategy.step ways (history ++ [request]) trace contents request) rest

def misses (strategy : Strategy α) (ways : Nat) (trace : List α) : Nat := strategy.missesFrom ways trace [] ∅ trace

theorem step_bounded (strategy : Strategy α) (ways : Nat) (history trace : List α) (contents : Finset α) (request : α)
    (positive : 0 < ways) (bounded : contents.card ≤ ways) :
    Serve ways (anyVictim []) contents request (strategy.step ways history trace contents request)
        (if request ∈ contents then 0 else 1) ∧
      (strategy.step ways history trace contents request).card ≤ ways := by
  simp only [step]
  by_cases resident : request ∈ contents
  · rw [if_pos resident, if_pos resident]
    exact ⟨.hit resident, bounded⟩
  · rw [if_neg resident, if_neg resident]
    by_cases room : contents.card < ways
    · rw [if_pos room]
      refine ⟨.fill resident room, ?_⟩
      rw [Finset.card_insert_of_notMem resident]
      exact room
    · rw [if_neg room]
      have chosen := strategy.resident history trace contents (Finset.card_pos.mp (by omega))
      refine ⟨.replace _ resident (by omega) chosen trivial, ?_⟩
      rw [card_replace contents request _ resident chosen]
      exact bounded

theorem misses_run (strategy : Strategy α) (ways : Nat) (trace history stream : List α) (contents : Finset α)
    (positive : 0 < ways) (bounded : contents.card ≤ ways) :
    ∃ final, Run ways anyVictim contents stream final (strategy.missesFrom ways trace history contents stream) := by
  induction stream generalizing history contents with
  | nil => exact ⟨contents, .nil contents⟩
  | cons request rest ih =>
      obtain ⟨served, kept⟩ := strategy.step_bounded ways (history ++ [request]) trace contents request positive bounded
      obtain ⟨final, ran⟩ := ih (history ++ [request]) _ kept
      exact ⟨final, .cons contents _ final request rest _ _ served ran⟩

end Strategy

theorem furthest_run_beats_strategy (strategy : Strategy α) (ways : Nat) (trace : List α) (final : Finset α) (paid : Nat)
    (positive : 0 < ways) (ran : Run ways Furthest ∅ trace final paid) : paid ≤ strategy.misses ways trace := by
  obtain ⟨otherFinal, otherRan⟩ := strategy.misses_run ways trace [] trace ∅ positive (Nat.zero_le _)
  exact furthest_run_is_optimal ways anyVictim trace final otherFinal paid _ ran otherRan

section Requests

variable (requests : Nat → α)

def requested (n : Nat) : Finset α := (Finset.range n).image requests

theorem mem_requested (n : Nat) (line : α) : line ∈ requested requests n ↔ ∃ i, i < n ∧ requests i = line := by
  simp only [requested, Finset.mem_image, Finset.mem_range]

theorem requested_succ (n : Nat) : requested requests (n + 1) = insert (requests n) (requested requests n) := by
  rw [requested, Finset.range_add_one, Finset.image_insert, requested]

theorem requested_mono (m n : Nat) (earlier : m ≤ n) : requested requests m ⊆ requested requests n :=
  Finset.image_subset_image (Finset.range_subset_range.mpr earlier)

theorem count_first_requests (n : Nat) :
    Nat.count (fun i => requests i ∉ requested requests i) n = (requested requests n).card := by
  induction n with
  | zero => rfl
  | succ n ih =>
      rw [Nat.count_succ, ih, requested_succ]
      by_cases again : requests n ∈ requested requests n
      · rw [if_neg (not_not_intro again), Finset.insert_eq_of_mem again, Nat.add_zero]
      · rw [if_pos again, Finset.card_insert_of_notMem again]

end Requests

end CpuEmulator.Library.Paging
