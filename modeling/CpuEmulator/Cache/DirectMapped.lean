import CpuEmulator.Cache.Accounting

set_option autoImplicit false

namespace CpuEmulator.Cache

-- Both searches end on slot 0, the LRU scan also when the slot was stamped with
-- the largest time, the optimal one also when the tag is used again.
theorem one_way_victim (policy : ReplacementPolicy) (cache : CacheLevel) (lines : List CacheLine) (traces : List MemAccess)
    (currentIdx : Nat) (single : lines.length = 1) : victimOf policy cache lines traces currentIdx = 0 := by
  obtain ⟨line, rfl⟩ := List.length_eq_one_iff.mp single
  cases policy with
  | lru =>
      rw [victimOf, lruScan]
      split <;> rfl
  | optimal =>
      rw [victimOf, findOptimalVictim, optimalScan]
      cases nextUse cache line.tag traces currentIdx with
      | none => rfl
      | some next =>
          dsimp only
          split <;> rfl

theorem one_way_access (policy other : ReplacementPolicy) (globalTimer : Nat) (cache : CacheLevel) (traces : List MemAccess)
    (currentIdx : Nat) (single : ∀ set, (cache.sets set).length = 1) :
    cacheAccess policy globalTimer cache traces currentIdx = cacheAccess other globalTimer cache traces currentIdx := by
  simp only [cacheAccess, one_way_victim policy cache _ traces currentIdx (single _),
    one_way_victim other cache _ traces currentIdx (single _)]

def Parameters.withPolicy (p : Parameters) (policy : ReplacementPolicy) : Parameters := { p with policy := policy }

theorem simulation_ext (first second : Simulation) (timer : first.globalTimer = second.globalTimer)
    (levels : ∀ lvl, first.level lvl = second.level lvl) : first = second := by
  cases first
  cases second
  obtain rfl := timer
  obtain rfl := levels 0
  obtain rfl := levels 1
  obtain rfl := levels 2
  rfl

section Policies

variable (p : Parameters) (traces : List MemAccess) (policy other : ReplacementPolicy)

theorem served_policy (i : Nat) (s : Simulation) (lvl : Fin 3) (single : ∀ set, ((s.level lvl).sets set).length = 1) :
    served (p.withPolicy policy) traces i s lvl = served (p.withPolicy other) traces i s lvl :=
  congrArg Prod.snd (one_way_access policy other _ _ traces i single)

theorem passes_on_policy (i : Nat) (s : Simulation) (lvl : Fin 3) (single : ∀ set, ((s.level lvl).sets set).length = 1) :
    passesOn (p.withPolicy policy) traces i s lvl = passesOn (p.withPolicy other) traces i s lvl := by
  rw [passesOn, passesOn, served_policy p traces policy other i s lvl single]

-- A level that is not present may hold anything: no iteration gets to it.
theorem reaches_policy (i : Nat) (s : Simulation)
    (single : ∀ lvl, p.present lvl → ∀ set, ((s.level lvl).sets set).length = 1) (first : p.present 0) (lvl : Fin 3) :
    reaches (p.withPolicy policy) traces i s lvl = reaches (p.withPolicy other) traces i s lvl := by
  have below := passes_on_policy p traces policy other i s 0 (single 0 first)
  cases lvl using level_cases with
  | l1 => rfl
  | l2 =>
      rw [reaches, reaches, below]
      rfl
  | l3 =>
      by_cases two : 1 < p.numLvls
      · rw [reaches, reaches, below, passes_on_policy p traces policy other i s 1 (single 1 two)]
        rfl
      · have absent : ∀ any, reaches (p.withPolicy any) traces i s 2 = false := fun any => by
          rw [reaches, show decide (1 < (p.withPolicy any).numLvls) = false from decide_eq_false two]
          rfl
        rw [absent policy, absent other]

theorem reaches_present (i : Nat) (s : Simulation) (first : p.present 0) (lvl : Fin 3)
    (reached : reaches p traces i s lvl = true) : p.present lvl := by
  cases lvl using level_cases with
  | l1 => exact first
  | l2 =>
      rw [reaches, Bool.and_eq_true, decide_eq_true_iff] at reached
      exact reached.1
  | l3 =>
      rw [reaches, Bool.and_eq_true, Bool.and_eq_true, Bool.and_eq_true, decide_eq_true_iff, decide_eq_true_iff] at reached
      exact reached.2.1

theorem step_policy (i : Nat) (s : Simulation)
    (single : ∀ lvl, p.present lvl → ∀ set, ((s.level lvl).sets set).length = 1) (first : p.present 0) :
    simulationStep (p.withPolicy policy) traces i s = simulationStep (p.withPolicy other) traces i s := by
  have reached := reaches_policy p traces policy other i s single first
  have timer : (simulationStep (p.withPolicy policy) traces i s).globalTimer =
      (simulationStep (p.withPolicy other) traces i s).globalTimer := by
    rw [step_timer, step_timer, levelsReached, levelsReached, reached 1, reached 2]
  have level (lvl : Fin 3) : (simulationStep (p.withPolicy policy) traces i s).level lvl =
      (simulationStep (p.withPolicy other) traces i s).level lvl := by
    rw [step_level, step_level, reached lvl]
    cases here : reaches (p.withPolicy other) traces i s lvl with
    | true =>
        rw [if_pos rfl, if_pos rfl]
        exact served_policy p traces policy other i s lvl (single lvl (reaches_present (p.withPolicy other) traces i s first lvl here))
    | false => rfl
  exact simulation_ext _ _ timer level

end Policies

section Run

variable (p : Parameters) (traces : List MemAccess) (accepted : Accepted p)

include accepted

theorem with_policy_accepted (policy : ReplacementPolicy) : Accepted (p.withPolicy policy) :=
  ⟨accepted.numLvls, accepted.lineSize, accepted.assoc, accepted.lvlSize⟩

variable (direct : ∀ lvl, p.present lvl → p.assoc lvl = 1)

include direct

theorem direct_mapped_single (policy : ReplacementPolicy) (n : Nat) (lvl : Fin 3) (present : p.present lvl) (set : Nat) :
    (((simulate (p.withPolicy policy) traces n).level lvl).sets set).length = 1 := by
  have of := simulate_of_level (p.withPolicy policy) traces lvl (with_policy_accepted p accepted policy) present n
  rw [of.sound.slots, of.ways]
  exact direct lvl present

theorem direct_mapped_simulate (policy other : ReplacementPolicy) (n : Nat) :
    simulate (p.withPolicy policy) traces n = simulate (p.withPolicy other) traces n := by
  induction n with
  | zero => rfl
  | succ n ih =>
      have single := direct_mapped_single p traces accepted direct other n
      rw [simulate, simulate, ih]
      exact step_policy p traces policy other n _ single (l1_present p accepted)

end Run

structure SameOutcomes (p q : Parameters) (traces : List MemAccess) (n : Nat) : Prop where
  reached : ∀ i, i < n → ∀ lvl, reachesAt p traces i lvl = reachesAt q traces i lvl
  held : ∀ i, i < n → ∀ lvl, holdsAt p traces i lvl = holdsAt q traces i lvl
  hits : ∀ lvl, ((simulate p traces n).level lvl).hits = ((simulate q traces n).level lvl).hits
  misses : ∀ lvl, ((simulate p traces n).level lvl).misses = ((simulate q traces n).level lvl).misses
  ram : ramVisits p (simulate p traces n) = ramVisits q (simulate q traces n)

theorem direct_mapped_policies_coincide (p : Parameters) (traces : List MemAccess) (accepted : Accepted p)
    (direct : ∀ lvl, p.present lvl → p.assoc lvl = 1) (n : Nat) :
    SameOutcomes (p.withPolicy .optimal) (p.withPolicy .lru) traces n := by
  have same := direct_mapped_simulate p traces accepted direct .optimal .lru
  have single := direct_mapped_single p traces accepted direct .lru
  refine ⟨fun i _ lvl => ?_, fun i _ lvl => ?_, fun lvl => ?_, fun lvl => ?_, ?_⟩
  · rw [reachesAt, reachesAt, same i]
    exact reaches_policy p traces .optimal .lru i _ (single i) (l1_present p accepted) lvl
  · rw [holdsAt, holdsAt, same i]
  · rw [same n]
  · rw [same n]
  · rw [same n]
    rfl

theorem direct_mapped_policies_coincide_conflict :
    SameOutcomes (directMapped.withPolicy .optimal) (directMapped.withPolicy .lru) [⟨0, 0⟩, ⟨32, 0⟩, ⟨0, 1⟩] 3 ∧
      ramVisits (directMapped.withPolicy .lru) (simulate (directMapped.withPolicy .lru) [⟨0, 0⟩, ⟨32, 0⟩, ⟨0, 1⟩] 3) = 3 :=
  ⟨direct_mapped_policies_coincide directMapped _ direct_mapped_accepted (by decide) 3, by decide⟩

end CpuEmulator.Cache
