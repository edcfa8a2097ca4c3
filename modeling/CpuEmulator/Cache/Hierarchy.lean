import CpuEmulator.Cache.Residency

set_option autoImplicit false

namespace CpuEmulator.Cache

def Simulation.level (s : Simulation) (lvl : Fin 3) : CacheLevel :=
  match lvl with
  | 0 => s.l1
  | 1 => s.l2
  | 2 => s.l3

def timerAt (s : Simulation) (lvl : Fin 3) : Nat :=
  match lvl with
  | 0 => s.globalTimer
  | 1 => (s.globalTimer + 1) % 2 ^ 32
  | 2 => ((s.globalTimer + 1) % 2 ^ 32 + 1) % 2 ^ 32

def served (p : Parameters) (traces : List MemAccess) (i : Nat) (s : Simulation) (lvl : Fin 3) : CacheLevel :=
  (cacheAccess p.policy (timerAt s lvl) (s.level lvl) traces i).2

def passesOn (p : Parameters) (traces : List MemAccess) (i : Nat) (s : Simulation) (lvl : Fin 3) : Bool :=
  (served p traces i s lvl).hits == (s.level lvl).hits % 2 ^ 32

@[elab_as_elim]
theorem level_cases {motive : Fin 3 → Prop} (l1 : motive 0) (l2 : motive 1) (l3 : motive 2) (lvl : Fin 3) : motive lvl :=
  match lvl with
  | 0 => l1
  | 1 => l2
  | 2 => l3

def reaches (p : Parameters) (traces : List MemAccess) (i : Nat) (s : Simulation) (lvl : Fin 3) : Bool :=
  match lvl with
  | 0 => true
  | 1 => 1 < p.numLvls && passesOn p traces i s 0
  | 2 => (1 < p.numLvls && passesOn p traces i s 0) && (2 < p.numLvls && passesOn p traces i s 1)

def levelsReached (p : Parameters) (traces : List MemAccess) (i : Nat) (s : Simulation) : Nat :=
  1 + (reaches p traces i s 1).toNat + (reaches p traces i s 2).toNat

def accessCalls (p : Parameters) (traces : List MemAccess) : Nat → Nat
  | 0 => 0
  | n + 1 => accessCalls p traces n + levelsReached p traces n (simulate p traces n)

section Step

variable (p : Parameters) (traces : List MemAccess) (i : Nat) (s : Simulation)

inductive Visits : Simulation → Prop where
  | one (first : reaches p traces i s 1 = false) (second : reaches p traces i s 2 = false) :
      Visits ⟨(s.globalTimer + 1) % 2 ^ 32, served p traces i s 0, s.l2, s.l3⟩
  | two (first : reaches p traces i s 1 = true) (second : reaches p traces i s 2 = false) :
      Visits ⟨((s.globalTimer + 1) % 2 ^ 32 + 1) % 2 ^ 32, served p traces i s 0, served p traces i s 1, s.l3⟩
  | three (first : reaches p traces i s 1 = true) (second : reaches p traces i s 2 = true) :
      Visits ⟨(((s.globalTimer + 1) % 2 ^ 32 + 1) % 2 ^ 32 + 1) % 2 ^ 32, served p traces i s 0, served p traces i s 1,
        served p traces i s 2⟩

theorem cache_access_served (lvl : Fin 3) : cacheAccess p.policy (timerAt s lvl) (s.level lvl) traces i =
    ((timerAt s lvl + 1) % 2 ^ 32, served p traces i s lvl) := by
  rw [served, ← access_timer p.policy (timerAt s lvl) (s.level lvl) traces i]

theorem step_visits : Visits p traces i s (simulationStep p traces i s) := by
  have first := cache_access_served p traces i s 0
  have second := cache_access_served p traces i s 1
  have third := cache_access_served p traces i s 2
  simp only [timerAt, Simulation.level] at first second third
  have reachesOne : reaches p traces i s 1 =
      decide (1 < p.numLvls ∧ (served p traces i s 0).hits = s.l1.hits % 2 ^ 32) := by
    rw [Bool.decide_and]
    rfl
  have reachesTwo : reaches p traces i s 2 =
      (reaches p traces i s 1 && decide (2 < p.numLvls ∧ (served p traces i s 1).hits = s.l2.hits % 2 ^ 32)) := by
    rw [Bool.decide_and]
    rfl
  simp only [simulationStep]
  simp only [first, second, third]
  by_cases passed : 1 < p.numLvls ∧ (served p traces i s 0).hits = s.l1.hits % 2 ^ 32
  · rw [decide_eq_true passed] at reachesOne
    rw [if_pos passed]
    by_cases again : 2 < p.numLvls ∧ (served p traces i s 1).hits = s.l2.hits % 2 ^ 32
    · rw [if_pos again]
      exact .three reachesOne (by rw [reachesTwo, reachesOne, decide_eq_true again]; rfl)
    · rw [if_neg again]
      exact .two reachesOne (by rw [reachesTwo, reachesOne, decide_eq_false again]; rfl)
  · rw [decide_eq_false passed] at reachesOne
    rw [if_neg passed]
    exact .one reachesOne (by rw [reachesTwo, reachesOne]; rfl)

theorem step_level (lvl : Fin 3) : (simulationStep p traces i s).level lvl =
    if reaches p traces i s lvl then served p traces i s lvl else s.level lvl := by
  have visits := step_visits p traces i s
  generalize simulationStep p traces i s = after at visits ⊢
  cases lvl using level_cases with
  | l1 => cases visits <;> rfl
  | l2 =>
      cases visits with
      | one first second => rw [first]; rfl
      | two first second => rw [first]; rfl
      | three first second => rw [first]; rfl
  | l3 =>
      cases visits with
      | one first second => rw [second]; rfl
      | two first second => rw [second]; rfl
      | three first second => rw [second]; rfl

theorem step_timer : (simulationStep p traces i s).globalTimer = (s.globalTimer + levelsReached p traces i s) % 2 ^ 32 := by
  have visits := step_visits p traces i s
  generalize simulationStep p traces i s = after at visits ⊢
  cases visits with
  | one first second => simp only [levelsReached, first, second, Bool.toNat_false]
  | two first second | three first second =>
      simp only [levelsReached, first, second, Bool.toNat_true, Bool.toNat_false]
      omega

theorem l1_present (accepted : Accepted p) : p.present 0 := by
  have valid := accepted.numLvls
  simp only [isValidNumLvls] at valid
  rw [Bool.and_eq_true, decide_eq_true_eq] at valid
  exact valid.1

end Step

theorem simulate_timer (p : Parameters) (traces : List MemAccess) (n : Nat) :
    (simulate p traces n).globalTimer = accessCalls p traces n % 2 ^ 32 := by
  induction n with
  | zero => rfl
  | succ n ih => rw [simulate, step_timer, ih, accessCalls, Nat.mod_add_mod]

def setCount (p : Parameters) (lvl : Fin 3) : Nat := p.lvlSize lvl / (p.lineSize * p.assoc lvl)

structure OfLevel (p : Parameters) (lvl : Fin 3) (cache : CacheLevel) : Prop where
  sound : Sound cache
  lineSize : cache.lineSize = p.lineSize
  ways : cache.associativity = p.assoc lvl
  sets : cache.numSets = setCount p lvl

theorem empty_lines (cache : CacheLevel) (set ways : Nat) : linesOf cache set (List.replicate ways ⟨0, false, 0⟩) = [] := by
  rw [linesOf, List.filter_replicate_of_neg Bool.false_ne_true, List.map_nil]

theorem init_of_level (p : Parameters) (lvl : Fin 3) (accepted : Accepted p) (present : p.present lvl) :
    OfLevel p lvl (cacheInit p lvl).1 := by
  obtain ⟨_, shaped, done⟩ := init_shaped p lvl accepted present
  rw [done] at shaped ⊢
  refine ⟨⟨shaped, fun _ => List.length_replicate, fun set => ?_⟩, rfl, rfl, rfl⟩
  rw [residentLines, empty_lines]
  exact List.nodup_nil

theorem access_of_level (p : Parameters) (lvl : Fin 3) (policy : ReplacementPolicy) (globalTimer : Nat) (cache : CacheLevel)
    (traces : List MemAccess) (currentIdx : Nat) (of : OfLevel p lvl cache) :
    OfLevel p lvl (cacheAccess policy globalTimer cache traces currentIdx).2 := by
  have sound := access_sound policy globalTimer cache traces currentIdx of.sound
  obtain ⟨hit, after, _, done⟩ := sound_access_effect policy globalTimer cache traces currentIdx of.sound
  rw [done] at sound ⊢
  exact ⟨sound, of.lineSize, of.ways, of.sets⟩

theorem start_level (p : Parameters) (lvl : Fin 3) (present : p.present lvl) :
    (simulationStart p).level lvl = (cacheInit p lvl).1 := by
  cases lvl using level_cases with
  | l1 => rfl
  | l2 => exact if_pos present
  | l3 => exact if_pos present

-- Step to run: what holds of a level at its start and is kept by the accesses
-- that reach it holds after any number of iterations.
theorem level_induction (p : Parameters) (traces : List MemAccess) (lvl : Fin 3) (accepted : Accepted p)
    (present : p.present lvl) (inv : Nat → CacheLevel → Prop) (initial : inv 0 (cacheInit p lvl).1)
    (reached : ∀ n, OfLevel p lvl ((simulate p traces n).level lvl) → inv n ((simulate p traces n).level lvl) →
      reaches p traces n (simulate p traces n) lvl = true → inv (n + 1) (served p traces n (simulate p traces n) lvl))
    (skipped : ∀ n, inv n ((simulate p traces n).level lvl) → reaches p traces n (simulate p traces n) lvl = false →
      inv (n + 1) ((simulate p traces n).level lvl)) (n : Nat) :
    OfLevel p lvl ((simulate p traces n).level lvl) ∧ inv n ((simulate p traces n).level lvl) := by
  induction n with
  | zero =>
      rw [simulate, start_level p lvl present]
      exact ⟨init_of_level p lvl accepted present, initial⟩
  | succ n ih =>
      obtain ⟨of, holds⟩ := ih
      rw [simulate, step_level]
      cases here : reaches p traces n (simulate p traces n) lvl with
      | true =>
          rw [if_pos rfl]
          exact ⟨access_of_level p lvl _ _ _ traces n of, reached n of holds here⟩
      | false =>
          rw [if_neg Bool.false_ne_true]
          exact ⟨of, skipped n holds here⟩

theorem simulate_of_level (p : Parameters) (traces : List MemAccess) (lvl : Fin 3) (accepted : Accepted p)
    (present : p.present lvl) (n : Nat) : OfLevel p lvl ((simulate p traces n).level lvl) :=
  (level_induction p traces lvl accepted present (fun _ _ => True) trivial (fun _ _ _ _ => trivial) (fun _ _ _ => trivial)
    n).1

end CpuEmulator.Cache
