import CpuEmulator.Cache.Hierarchy
import CpuEmulator.Library.Lru

set_option autoImplicit false

namespace CpuEmulator.Cache

open Library

def Recent (cache : CacheLevel) (set timer : Nat) (lines : List CacheLine) (recency : List Nat) : Prop :=
  ∃ ordered : List CacheLine, ordered.Perm (lines.filter (fun line => line.valid)) ∧
    ordered.Pairwise (fun newer older => older.lastUsed < newer.lastUsed) ∧
    ordered.map (storedLine cache set) = recency ∧ ∀ line ∈ ordered, line.lastUsed ≤ timer

def RecentBy {α : Type} (key : CacheLine → α) (timer : Nat) (lines : List CacheLine) (recency : List α) : Prop :=
  ∃ ordered : List CacheLine, ordered.Perm (lines.filter (fun line => line.valid)) ∧
    ordered.Pairwise (fun newer older => older.lastUsed < newer.lastUsed) ∧
    ordered.map key = recency ∧ ∀ line ∈ ordered, line.lastUsed ≤ timer

theorem recent_lines (cache : CacheLevel) (set timer : Nat) (lines : List CacheLine) (recency : List Nat)
    (recent : Recent cache set timer lines recency) : recency.Perm (linesOf cache set lines) := by
  obtain ⟨ordered, perm, _, rfl, _⟩ := recent
  exact perm.map _

theorem recent_push (timer : Nat) (line : CacheLine) (ordered : List CacheLine)
    (sorted : ordered.Pairwise (fun newer older => older.lastUsed < newer.lastUsed))
    (bounded : ∀ known ∈ ordered, known.lastUsed ≤ timer) (stamped : line.lastUsed = timer + 1) :
    (line :: ordered).Pairwise (fun newer older => older.lastUsed < newer.lastUsed) ∧
      ∀ known ∈ line :: ordered, known.lastUsed ≤ timer + 1 := by
  constructor
  · refine List.pairwise_cons.mpr ⟨fun known member => ?_, sorted⟩
    have old := bounded known member
    omega
  · intro known member
    rcases List.mem_cons.mp member with rfl | member
    · omega
    · have old := bounded known member
      omega

section Set

variable {α : Type} (key : CacheLine → α) (tag : U64) (name : α) (timer : Nat)
  (lines after : List CacheLine) (recency : List α)

theorem recent_names (recent : RecentBy key timer lines recency) :
    recency.Perm ((lines.filter (fun line => line.valid)).map key) := by
  obtain ⟨ordered, perm, _, rfl, _⟩ := recent
  exact perm.map _

theorem recent_fits (recent : RecentBy key timer lines recency) : recency.length ≤ lines.length := by
  rw [(recent_names key timer lines recency recent).length_eq, List.length_map]
  exact List.length_filter_le _ _

theorem recent_later (later : Nat) (recent : RecentBy key timer lines recency) (order : timer ≤ later) :
    RecentBy key later lines recency := by
  obtain ⟨ordered, perm, sorted, same, bounded⟩ := recent
  exact ⟨ordered, perm, sorted, same, fun line known => Nat.le_trans (bounded line known) order⟩

theorem recent_member (recent : RecentBy key timer lines recency) :
    name ∈ recency ↔ ∃ line ∈ lines, line.valid = true ∧ key line = name := by
  rw [(recent_names key timer lines recency recent).mem_iff]
  exact mem_valid key lines name

variable [DecidableEq α] (names : ∀ line, key line = name ↔ line.tag = tag)

include names

theorem recent_hit (line : CacheLine) (others : List CacheLine) (found : lines.Perm (line :: others))
    (valid : line.valid = true) (same : line.tag = tag)
    (written : after.Perm ({ line with lastUsed := timer + 1 } :: others))
    (recent : RecentBy key timer lines recency) (distinct : recency.Nodup) :
    RecentBy key (timer + 1) after (Lru.touch lines.length name recency) ∧ name ∈ recency := by
  have fits := recent_fits key timer lines recency recent
  have here := (names line).mpr same
  have renamed := (names { line with lastUsed := timer + 1 }).mpr same
  obtain ⟨ordered, perm, sorted, rfl, bounded⟩ := recent
  have kept := found.filter (fun line => line.valid)
  rw [List.filter_cons_of_pos valid] at kept
  have sameLines := perm.trans kept
  obtain ⟨newer, older, rfl⟩ := List.append_of_mem (sameLines.symm.subset List.mem_cons_self)
  have member : name ∈ (newer ++ line :: older).map key := by
    rw [← here]
    exact List.mem_map_of_mem (List.mem_append_right newer List.mem_cons_self)
  refine ⟨?_, member⟩
  have sublist : (newer ++ older).Sublist (newer ++ line :: older) := List.Sublist.append_left (List.sublist_cons_self _ _) newer
  obtain ⟨pushed, stamps⟩ := recent_push timer { line with lastUsed := timer + 1 } (newer ++ older) (sorted.sublist sublist)
    (fun known known' => bounded known (sublist.subset known')) rfl
  refine ⟨_, ?_, pushed, ?_, stamps⟩
  · have renewed := written.filter (fun line => line.valid)
    have head : ({ line with lastUsed := timer + 1 } : CacheLine).valid = true := valid
    rw [List.filter_cons_of_pos head] at renewed
    exact (((List.perm_middle.symm.trans sameLines).cons_inv).cons _).trans renewed.symm
  · rw [Lru.touch_hit _ _ _ member fits, List.map_cons, List.map_append, List.map_append, List.map_cons, here, renamed]
    rw [List.map_append, List.map_cons, here] at distinct
    have fresh : name ∉ newer.map key := fun early => (List.nodup_append.mp distinct).2.2 _ early _ List.mem_cons_self rfl
    rw [List.erase_append_right _ fresh, List.erase_cons_head]

theorem recent_fill (line : CacheLine) (others : List CacheLine) (absent : name ∉ recency)
    (found : lines.Perm (line :: others)) (empty : line.valid = false)
    (written : after.Perm (⟨tag, true, timer + 1⟩ :: others)) (recent : RecentBy key timer lines recency) :
    RecentBy key (timer + 1) after (Lru.touch lines.length name recency) := by
  have arrives : key ⟨tag, true, timer + 1⟩ = name := (names _).mpr rfl
  have held := recent_names key timer lines recency recent
  have kept := found.filter (fun line => line.valid)
  rw [List.filter_cons_of_neg (by rw [empty]; exact Bool.false_ne_true)] at kept
  have room : recency.length < lines.length := by
    have count := List.length_filter_le (fun line : CacheLine => line.valid) others
    rw [held.length_eq, List.length_map, kept.length_eq, found.length_eq, List.length_cons]
    omega
  obtain ⟨ordered, perm, sorted, rfl, bounded⟩ := recent
  obtain ⟨pushed, stamps⟩ := recent_push timer ⟨tag, true, timer + 1⟩ ordered sorted bounded rfl
  refine ⟨_, ?_, pushed, ?_, stamps⟩
  · have renewed := written.filter (fun line => line.valid)
    rw [List.filter_cons_of_pos rfl] at renewed
    exact ((perm.trans kept).cons _).trans renewed.symm
  · rw [Lru.touch_fill _ _ _ absent room, List.map_cons, arrives]

theorem recent_evict (line : CacheLine) (others : List CacheLine) (absent : name ∉ recency)
    (full : ∀ known ∈ lines, known.valid = true) (oldest : ∀ other ∈ lines, line.lastUsed ≤ other.lastUsed)
    (found : lines.Perm (line :: others)) (written : after.Perm (⟨tag, true, timer + 1⟩ :: others))
    (recent : RecentBy key timer lines recency) :
    RecentBy key (timer + 1) after (Lru.touch lines.length name recency) := by
  have arrives : key ⟨tag, true, timer + 1⟩ = name := (names _).mpr rfl
  obtain ⟨ordered, perm, sorted, rfl, bounded⟩ := recent
  rw [List.filter_eq_self.mpr full] at perm
  obtain ⟨newer, last, rfl⟩ : ∃ newer last, ordered = newer ++ [last] := by
    apply (List.eq_nil_or_concat' ordered).resolve_left
    intro none
    have count := perm.length_eq
    rw [none, found.length_eq] at count
    cases count
  obtain rfl : line = last := by
    have known : line ∈ newer ++ [last] := perm.symm.subset (found.symm.subset List.mem_cons_self)
    rcases List.mem_append.mp known with early | late
    · have before := (List.pairwise_append.mp sorted).2.2 line early last List.mem_cons_self
      have least := oldest last (perm.subset (List.mem_append_right newer List.mem_cons_self))
      omega
    · exact List.mem_singleton.mp late
  obtain ⟨pushed, stamps⟩ := recent_push timer ⟨tag, true, timer + 1⟩ newer
    (List.pairwise_append.mp sorted).1 (fun known member => bounded known (List.mem_append_left _ member)) rfl
  refine ⟨_, ?_, pushed, ?_, stamps⟩
  · have rest : newer.Perm others := ((List.perm_append_singleton line newer).symm.trans (perm.trans found)).cons_inv
    have renewed := written.filter (fun line => line.valid)
    have valid : ∀ known ∈ others, known.valid = true := fun known member =>
      full known (found.symm.subset (List.mem_cons_of_mem line member))
    rw [List.filter_cons_of_pos rfl, List.filter_eq_self.mpr valid] at renewed
    exact (rest.cons _).trans renewed.symm
  · have count := perm.length_eq
    rw [List.length_append, List.length_singleton, ← List.length_map key] at count
    rw [List.map_append, List.map_singleton] at absent ⊢
    rw [← count, Lru.touch_replace _ _ _ absent, List.map_cons, arrives]

theorem recent_served (hit : Bool) (early : timer + 1 < 2 ^ 32)
    (served : SetServed tag (timer + 1) (lruScan lines 0 uint32Max 0) lines hit after)
    (recent : RecentBy key timer lines recency) (distinct : recency.Nodup) :
    RecentBy key (timer + 1) after (Lru.touch lines.length name recency) ∧ (hit = true ↔ name ∈ recency) := by
  have missing : (∀ known ∈ lines, known.valid = true → known.tag ≠ tag) → name ∉ recency := by
    intro absent here
    obtain ⟨line, known, valid, same⟩ := (recent_member key name timer lines recency recent).mp here
    exact absent line known valid ((names line).mp same)
  cases served with
  | hit line others _ found valid same written =>
      obtain ⟨next, member⟩ := recent_hit key tag name timer lines after recency names line others found valid same written
        recent distinct
      exact ⟨next, iff_of_true rfl member⟩
  | fill line others _ absent found empty written =>
      refine ⟨?_, iff_of_false Bool.false_ne_true (missing absent)⟩
      exact recent_fill key tag name timer lines after recency names line others (missing absent) found empty written recent
  | evict line others _ absent full chosen found written =>
      refine ⟨?_, iff_of_false Bool.false_ne_true (missing absent)⟩
      have member : line ∈ lines := found.symm.subset List.mem_cons_self
      have stamped : line.lastUsed ≤ timer := by
        obtain ⟨ordered, perm, _, _, bounded⟩ := recent
        exact bounded line (perm.symm.subset (List.mem_filter.mpr ⟨member, full line member⟩))
      obtain ⟨oldest, slot, least⟩ := lru_victim_oldest lines line member (by rw [uint32Max]; omega)
      obtain rfl : line = oldest := Option.some.inj (chosen.symm.trans slot)
      exact recent_evict key tag name timer lines after recency names line others (missing absent) full least found written
        recent

end Set

structure Follows (cache : CacheLevel) (timer : Nat) (reference : Lru.Reference) : Prop where
  hits : cache.hits = reference.hits
  misses : cache.misses = reference.misses
  recent : ∀ set, Recent cache set timer (cache.sets set) (reference.recency set)

theorem follows_later (cache : CacheLevel) (timer later : Nat) (reference : Lru.Reference)
    (follows : Follows cache timer reference) (order : timer ≤ later) : Follows cache later reference :=
  ⟨follows.hits, follows.misses, fun set => recent_later _ timer _ _ later (follows.recent set) order⟩

theorem init_follows (p : Parameters) (lvl : Fin 3) (accepted : Accepted p) (present : p.present lvl) :
    Follows (cacheInit p lvl).1 0 Lru.empty := by
  obtain ⟨_, _, done⟩ := init_shaped p lvl accepted present
  rw [done]
  refine ⟨rfl, rfl, fun set => ⟨[], ?_, List.Pairwise.nil, rfl, fun line none => by cases none⟩⟩
  rw [List.filter_replicate_of_neg Bool.false_ne_true]

theorem access_follows (cache : CacheLevel) (timer : Nat) (reference : Lru.Reference) (traces : List MemAccess) (i : Nat)
    (sound : Sound cache) (follows : Follows cache timer reference) (early : timer + 1 < 2 ^ 32) :
    Follows (cacheAccess .lru timer cache traces i).2 (timer + 1)
        (Lru.access cache.numSets cache.associativity reference (lineOf cache (addrAt traces i))) ∧
      (cacheAccess .lru timer cache traces i).2.hits =
        cache.hits + if reference.holds cache.numSets (lineOf cache (addrAt traces i)) then 1 else 0 := by
  obtain ⟨hit, after, served, done⟩ := sound_access_effect .lru timer cache traces i sound
  rw [Nat.mod_eq_of_lt early] at served
  have index := index_of_line cache (addrAt traces i) sound.shaped
  have before := follows.recent (indexOf cache (addrAt traces i))
  have distinct := (recent_lines cache _ timer _ _ before).nodup_iff.mpr (sound.distinct _)
  obtain ⟨recent, outcome⟩ := recent_served (storedLine cache _) _ _ timer _ after _
    (stored_line_here cache (addrAt traces i) sound.shaped) hit early served before distinct
  rw [sound.slots] at recent
  have holds : hit = decide (reference.holds cache.numSets (lineOf cache (addrAt traces i))) := by
    rw [Bool.eq_iff_iff, decide_eq_true_iff, Lru.Reference.holds, ← index]
    exact outcome
  have counted : (withSet cache (indexOf cache (addrAt traces i)) hit after).hits =
      cache.hits + if reference.holds cache.numSets (lineOf cache (addrAt traces i)) then 1 else 0 := by
    simp only [withSet, holds, decide_eq_true_eq]
  rw [done]
  refine ⟨⟨?_, ?_, ?_⟩, counted⟩
  · rw [counted, follows.hits, Lru.access]
    split <;> rfl
  · simp only [withSet, holds, decide_eq_true_eq, follows.misses, Lru.access]
    split <;> rfl
  · intro set
    rw [Lru.access_recency, ← index]
    by_cases here : set = indexOf cache (addrAt traces i)
    · subst here
      simp only [withSet, Function.update_self]
      exact recent
    · simp only [withSet, Function.update_of_ne here]
      exact recent_later _ timer _ _ _ (follows.recent set) (Nat.le_succ timer)

end CpuEmulator.Cache
