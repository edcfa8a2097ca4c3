import CpuEmulator.Cache.LruRefinement

set_option autoImplicit false

namespace CpuEmulator.Cache

open Library

section Reference

variable (p : Parameters) (traces : List MemAccess)

def traceLine (i : Nat) : Nat := (addrAt traces i).toNat / p.lineSize

def lineStream (n : Nat) : List Nat := (traces.take n).map (fun access => access.addr.toNat / p.lineSize)

def reference (lvl : Fin 3) (stream : List Nat) : Lru.Reference := Lru.run (setCount p lvl) (p.assoc lvl) stream

-- The accesses that get to a level in a hierarchy of reference caches: the
-- whole trace, then what each cache passes on.
def streamTo (n : Nat) (lvl : Fin 3) : List Nat :=
  match lvl with
  | 0 => lineStream p traces n
  | 1 => (reference p 0 (lineStream p traces n)).missed
  | 2 => (reference p 1 (reference p 0 (lineStream p traces n)).missed).missed

def referenceTo (n : Nat) (lvl : Fin 3) : Lru.Reference := reference p lvl (streamTo p traces n lvl)

def referenceHolds (n : Nat) (lvl : Fin 3) : Prop :=
  (referenceTo p traces n lvl).holds (setCount p lvl) (traceLine p traces n)

instance (n : Nat) (lvl : Fin 3) : Decidable (referenceHolds p traces n lvl) :=
  inferInstanceAs (Decidable (Lru.Reference.holds _ _ _))

def referenceReaches (n : Nat) (lvl : Fin 3) : Bool :=
  match lvl with
  | 0 => true
  | 1 => !decide (referenceHolds p traces n 0)
  | 2 => !decide (referenceHolds p traces n 0) && !decide (referenceHolds p traces n 1)

theorem line_stream_succ (n : Nat) (inTrace : n < traces.length) :
    lineStream p traces (n + 1) = lineStream p traces n ++ [traceLine p traces n] := by
  rw [lineStream, lineStream, List.take_succ_eq_append_getElem inTrace, List.map_append, List.map_singleton, traceLine, addrAt,
    List.getElem?_eq_getElem inTrace]
  rfl

theorem reference_snoc (lvl : Fin 3) (stream : List Nat) (line : Nat) :
    reference p lvl (stream ++ [line]) = Lru.access (setCount p lvl) (p.assoc lvl) (reference p lvl stream) line :=
  Lru.run_snoc (setCount p lvl) (p.assoc lvl) stream line

theorem stream_succ (n : Nat) (inTrace : n < traces.length) (lvl : Fin 3) :
    streamTo p traces (n + 1) lvl =
      streamTo p traces n lvl ++ if referenceReaches p traces n lvl then [traceLine p traces n] else [] := by
  have second : streamTo p traces (n + 1) 1 =
      streamTo p traces n 1 ++ if referenceReaches p traces n 1 then [traceLine p traces n] else [] := by
    rw [streamTo, line_stream_succ p traces n inTrace, reference_snoc, Lru.access_missed]
    by_cases held : referenceHolds p traces n 0
    · rw [referenceReaches, decide_eq_true held]
      exact congrArg _ (if_pos held)
    · rw [referenceReaches, decide_eq_false held]
      exact congrArg _ (if_neg held)
  cases lvl using level_cases with
  | l1 => exact line_stream_succ p traces n inTrace
  | l2 => exact second
  | l3 =>
      change (reference p 1 (streamTo p traces (n + 1) 1)).missed = (reference p 1 (streamTo p traces n 1)).missed ++ _
      rw [second, referenceReaches, referenceReaches]
      by_cases held : referenceHolds p traces n 0
      · rw [decide_eq_true held]
        simp only [Bool.not_true, Bool.false_and, Bool.false_eq_true, if_false, List.append_nil]
      · rw [decide_eq_false held]
        simp only [Bool.not_false, Bool.true_and, if_true]
        rw [reference_snoc, Lru.access_missed]
        by_cases again : referenceHolds p traces n 1
        · rw [decide_eq_true again]
          exact congrArg _ (if_pos again)
        · rw [decide_eq_false again]
          exact congrArg _ (if_neg again)

theorem reference_succ (n : Nat) (inTrace : n < traces.length) (lvl : Fin 3) :
    referenceTo p traces (n + 1) lvl =
      if referenceReaches p traces n lvl then
        Lru.access (setCount p lvl) (p.assoc lvl) (referenceTo p traces n lvl) (traceLine p traces n)
      else referenceTo p traces n lvl := by
  rw [referenceTo, stream_succ p traces n inTrace]
  split
  · exact reference_snoc p lvl _ _
  · rw [List.append_nil, referenceTo]

theorem stream_length (n : Nat) (lvl : Fin 3) : (streamTo p traces n lvl).length ≤ n := by
  have first : (lineStream p traces n).length ≤ n := by
    rw [lineStream, List.length_map]
    exact List.length_take_le n traces
  have passed : ∀ lvl stream, (reference p lvl stream).missed.length ≤ stream.length := by
    intro lvl stream
    obtain ⟨total, missed⟩ := Lru.run_accounts (setCount p lvl) (p.assoc lvl) stream
    rw [reference]
    omega
  cases lvl using level_cases with
  | l1 => exact first
  | l2 => exact (passed 0 _).trans first
  | l3 => exact (passed 1 _).trans ((passed 0 _).trans first)

theorem reference_hits (n : Nat) (lvl : Fin 3) : (referenceTo p traces n lvl).hits ≤ n := by
  have total := (Lru.run_accounts (setCount p lvl) (p.assoc lvl) (streamTo p traces n lvl)).1
  have length := stream_length p traces n lvl
  rw [referenceTo, reference]
  omega

end Reference

section Run

variable (p : Parameters) (traces : List MemAccess) (n : Nat)

theorem calls_at_least : n ≤ accessCalls p traces n := by
  induction n with
  | zero => exact Nat.zero_le _
  | succ n ih =>
      rw [accessCalls, levelsReached]
      omega

theorem reaches_above (i : Nat) (s : Simulation) (reached : reaches p traces i s 2 = true) :
    reaches p traces i s 1 = true := by
  rw [reaches, Bool.and_eq_true] at reached
  exact reached.1

theorem timer_at_reached (lvl : Fin 3) (few : accessCalls p traces (n + 1) < 2 ^ 32)
    (reached : reaches p traces n (simulate p traces n) lvl = true) :
    timerAt (simulate p traces n) lvl = accessCalls p traces n + lvl.val ∧
      accessCalls p traces n + lvl.val + 1 ≤ accessCalls p traces (n + 1) := by
  have timer := simulate_timer p traces n
  rw [accessCalls, levelsReached] at few ⊢
  cases lvl using level_cases with
  | l1 =>
      rw [timerAt, timer]
      exact ⟨Nat.mod_eq_of_lt (by omega), by dsimp only [Fin.val_zero]; omega⟩
  | l2 =>
      rw [reached, Bool.toNat_true] at few ⊢
      rw [timerAt, timer]
      refine ⟨?_, ?_⟩ <;> dsimp only [Fin.val_one] <;> omega
  | l3 =>
      rw [reached, reaches_above p traces n _ reached, Bool.toNat_true] at few ⊢
      rw [timerAt, timer]
      refine ⟨?_, ?_⟩ <;> dsimp only [Fin.val_two] <;> omega

variable (lvl : Fin 3)

theorem served_follows (of : OfLevel p lvl ((simulate p traces n).level lvl)) (lru : p.policy = .lru)
    (few : accessCalls p traces (n + 1) < 2 ^ 32) (reached : reaches p traces n (simulate p traces n) lvl = true)
    (follows : Follows ((simulate p traces n).level lvl) (accessCalls p traces n) (referenceTo p traces n lvl)) :
    Follows (served p traces n (simulate p traces n) lvl) (accessCalls p traces (n + 1))
        (Lru.access (setCount p lvl) (p.assoc lvl) (referenceTo p traces n lvl) (traceLine p traces n)) ∧
      (served p traces n (simulate p traces n) lvl).hits =
        ((simulate p traces n).level lvl).hits + if referenceHolds p traces n lvl then 1 else 0 := by
  obtain ⟨timer, bound⟩ := timer_at_reached p traces n lvl few reached
  have here := follows_later _ _ (accessCalls p traces n + lvl.val) _ follows (Nat.le_add_right _ _)
  obtain ⟨next, hits⟩ := access_follows _ _ _ traces n of.sound here (by omega)
  rw [lineOf, of.lineSize, of.sets] at next hits
  rw [of.ways] at next
  rw [served, lru, timer]
  exact ⟨follows_later _ _ _ _ next bound, hits⟩

theorem passes_on_iff (of : OfLevel p lvl ((simulate p traces n).level lvl)) (lru : p.policy = .lru)
    (few : accessCalls p traces (n + 1) < 2 ^ 32) (reached : reaches p traces n (simulate p traces n) lvl = true)
    (follows : Follows ((simulate p traces n).level lvl) (accessCalls p traces n) (referenceTo p traces n lvl)) :
    passesOn p traces n (simulate p traces n) lvl = !decide (referenceHolds p traces n lvl) := by
  have hits := (served_follows p traces n lvl of lru few reached follows).2
  have small : ((simulate p traces n).level lvl).hits < 2 ^ 32 := by
    have counted := reference_hits p traces n lvl
    have calls := calls_at_least p traces (n + 1)
    rw [follows.hits]
    omega
  rw [passesOn, hits, Nat.mod_eq_of_lt small]
  by_cases held : referenceHolds p traces n lvl
  · rw [if_pos held, decide_eq_true held]
    exact beq_eq_false_iff_ne.mpr (Nat.succ_ne_self _)
  · rw [if_neg held, decide_eq_false held]
    exact beq_self_eq_true _

theorem reaches_iff (accepted : Accepted p) (present : p.present lvl) (lru : p.policy = .lru)
    (few : accessCalls p traces (n + 1) < 2 ^ 32)
    (follows : ∀ lvl, p.present lvl →
      Follows ((simulate p traces n).level lvl) (accessCalls p traces n) (referenceTo p traces n lvl)) :
    reaches p traces n (simulate p traces n) lvl = referenceReaches p traces n lvl := by
  have below : ∀ lower, p.present lower → reaches p traces n (simulate p traces n) lower = true →
      passesOn p traces n (simulate p traces n) lower = !decide (referenceHolds p traces n lower) := fun lower here reached =>
    passes_on_iff p traces n lower (simulate_of_level p traces lower accepted here n) lru few reached (follows lower here)
  have first := below 0 (l1_present p accepted) rfl
  have second : 1 < p.numLvls → reaches p traces n (simulate p traces n) 1 = referenceReaches p traces n 1 := by
    intro two
    rw [reaches, first, decide_eq_true two, referenceReaches, Bool.true_and]
  cases lvl using level_cases with
  | l1 => rfl
  | l2 => exact second present
  | l3 =>
      have three : 2 < p.numLvls := present
      have reached := second (by omega)
      change (reaches p traces n (simulate p traces n) 1 && (decide (2 < p.numLvls) && passesOn p traces n _ 1)) =
        (referenceReaches p traces n 1 && !decide (referenceHolds p traces n 1))
      rw [← reached, decide_eq_true three, Bool.true_and]
      cases here : reaches p traces n (simulate p traces n) 1 with
      | false => rfl
      | true => rw [below 1 (show 1 < p.numLvls by omega) here]

end Run

theorem run_follows (p : Parameters) (traces : List MemAccess) (accepted : Accepted p) (lru : p.policy = .lru) (n : Nat)
    (inTrace : n ≤ traces.length) (few : accessCalls p traces n < 2 ^ 32) (lvl : Fin 3) (present : p.present lvl) :
    Follows ((simulate p traces n).level lvl) (accessCalls p traces n) (referenceTo p traces n lvl) := by
  induction n generalizing lvl with
  | zero =>
      have start : referenceTo p traces 0 lvl = Lru.empty := by
        cases lvl using level_cases with
        | l1 | l2 | l3 => rfl
      rw [start, simulate, start_level p lvl present]
      exact init_follows p lvl accepted present
  | succ n ih =>
      have fewer : accessCalls p traces n ≤ accessCalls p traces (n + 1) := Nat.le_add_right _ _
      have follows := ih (by omega) (by omega)
      have reached := reaches_iff p traces n lvl accepted present lru few follows
      rw [simulate, step_level, reached, reference_succ p traces n (by omega)]
      cases here : referenceReaches p traces n lvl with
      | true =>
          rw [if_pos rfl, if_pos rfl]
          exact (served_follows p traces n lvl (simulate_of_level p traces lvl accepted present n) lru few
            (reached.trans here) (follows lvl present)).1
      | false =>
          rw [if_neg Bool.false_ne_true, if_neg Bool.false_ne_true]
          exact follows_later _ _ _ _ (follows lvl present) fewer

structure Agrees (cache : CacheLevel) (reference : Lru.Reference) : Prop where
  hits : cache.hits = reference.hits
  misses : cache.misses = reference.misses
  resident : ∀ set line, line ∈ residentLines cache set ↔ line ∈ reference.recency set

theorem follows_agrees (cache : CacheLevel) (timer : Nat) (reference : Lru.Reference)
    (follows : Follows cache timer reference) : Agrees cache reference :=
  ⟨follows.hits, follows.misses, fun set _ => (recent_lines cache set timer _ _ (follows.recent set)).symm.mem_iff⟩

-- After every iteration each level agrees with its reference cache, and the next
-- iteration accesses the level, and hits in it, exactly when the reference does.
theorem lru_hierarchy_follows_reference (p : Parameters) (traces : List MemAccess) (accepted : Accepted p)
    (lru : p.policy = .lru) (n : Nat) (inTrace : n ≤ traces.length) (few : accessCalls p traces n < 2 ^ 32) (lvl : Fin 3)
    (present : p.present lvl) :
    Agrees ((simulate p traces n).level lvl) (referenceTo p traces n lvl) ∧
      (n < traces.length → accessCalls p traces (n + 1) < 2 ^ 32 →
        (reaches p traces n (simulate p traces n) lvl = true ↔
          streamTo p traces (n + 1) lvl = streamTo p traces n lvl ++ [traceLine p traces n]) ∧
        (reaches p traces n (simulate p traces n) lvl = true →
          ((served p traces n (simulate p traces n) lvl).hits = ((simulate p traces n).level lvl).hits + 1 ↔
            (referenceTo p traces n lvl).holds (setCount p lvl) (traceLine p traces n)))) := by
  have follows := run_follows p traces accepted lru n inTrace few
  refine ⟨follows_agrees _ _ _ (follows lvl present), fun more fewer => ?_⟩
  have reached := reaches_iff p traces n lvl accepted present lru fewer follows
  constructor
  · rw [reached, stream_succ p traces n more]
    cases referenceReaches p traces n lvl with
    | true => exact iff_of_true rfl rfl
    | false =>
        refine iff_of_false Bool.false_ne_true (fun same => ?_)
        have length := congrArg List.length same
        rw [if_neg Bool.false_ne_true, List.append_nil, List.length_append, List.length_singleton] at length
        omega
  · intro here
    have of := simulate_of_level p traces lvl accepted present n
    rw [(served_follows p traces n lvl of lru fewer here (follows lvl present)).2]
    by_cases held : referenceHolds p traces n lvl
    · rw [if_pos held]
      exact iff_of_true rfl held
    · rw [if_neg held]
      exact iff_of_false (by omega) held

def threeLevels : Parameters := ⟨3, 16, fun _ => 2, fun lvl => 64 * 2 ^ lvl.val, .lru⟩

theorem three_levels_accepted : Accepted threeLevels := ⟨by decide, by decide, by decide, by decide⟩

def readsAt (addresses : List U64) : List MemAccess := addresses.map (fun address => ⟨address, 0⟩)

theorem lru_hierarchy_follows_reference_at_l3 :
    Agrees ((simulate threeLevels (readsAt [0, 32, 64, 0]) 3).level 2)
        (referenceTo threeLevels (readsAt [0, 32, 64, 0]) 3 2) ∧
      (reaches threeLevels (readsAt [0, 32, 64, 0]) 3 (simulate threeLevels (readsAt [0, 32, 64, 0]) 3) 1 = true →
        ((served threeLevels (readsAt [0, 32, 64, 0]) 3 (simulate threeLevels (readsAt [0, 32, 64, 0]) 3) 1).hits =
            ((simulate threeLevels (readsAt [0, 32, 64, 0]) 3).level 1).hits + 1 ↔
          (referenceTo threeLevels (readsAt [0, 32, 64, 0]) 3 1).holds (setCount threeLevels 1)
            (traceLine threeLevels (readsAt [0, 32, 64, 0]) 3))) :=
  ⟨(lru_hierarchy_follows_reference threeLevels (readsAt [0, 32, 64, 0]) three_levels_accepted rfl 3 (by decide) (by decide) 2
      (by decide)).1,
    ((lru_hierarchy_follows_reference threeLevels (readsAt [0, 32, 64, 0]) three_levels_accepted rfl 3 (by decide) (by decide) 1
      (by decide)).2 (by decide) (by decide)).2⟩

end CpuEmulator.Cache
