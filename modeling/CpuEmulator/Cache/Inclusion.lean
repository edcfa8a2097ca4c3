import CpuEmulator.Cache.LruRefinement
import CpuEmulator.Cache.Entries

set_option autoImplicit false

namespace CpuEmulator.Cache

open Library

def lruLevel (lineSize numSets ways : Nat) : Parameters :=
  ⟨1, lineSize, fun _ => ways, fun _ => numSets * lineSize * ways, .lru⟩

def HoldsTag (cache : CacheLevel) (set : Nat) (tag : U64) : Prop :=
  ∃ line ∈ cache.sets set, line.valid = true ∧ line.tag = tag

instance (cache : CacheLevel) (set : Nat) (tag : U64) : Decidable (HoldsTag cache set tag) :=
  inferInstanceAs (Decidable (∃ line ∈ _, _))

structure Tracks (cache : CacheLevel) (timer ways : Nat) (recency : Nat → List U64) : Prop where
  slots : ∀ set, (cache.sets set).length = ways
  bounded : ∀ set, Lru.Bounded ways (recency set)
  recent : ∀ set, RecentBy CacheLine.tag timer (cache.sets set) (recency set)

theorem tracks_holds (cache : CacheLevel) (timer ways : Nat) (recency : Nat → List U64)
    (tracks : Tracks cache timer ways recency) (set : Nat) (tag : U64) : HoldsTag cache set tag ↔ tag ∈ recency set :=
  (recent_member CacheLine.tag tag timer _ _ (tracks.recent set)).symm

def touched (ways : Nat) (cache : CacheLevel) (address : U64) (recency : Nat → List U64) : Nat → List U64 :=
  Function.update recency (indexOf cache address)
    (Lru.touch ways (tagOf cache address) (recency (indexOf cache address)))

structure Touched (before after : CacheLevel) (timer ways : Nat) (address : U64) (recency : Nat → List U64) : Prop where
  tracks : Tracks after timer ways (touched ways before address recency)
  lineSize : after.lineSize = before.lineSize
  numSets : after.numSets = before.numSets
  hits : after.hits = before.hits + if tagOf before address ∈ recency (indexOf before address) then 1 else 0
  misses : after.misses = before.misses + if tagOf before address ∈ recency (indexOf before address) then 0 else 1

theorem set_tracks (cache : CacheLevel) (timer ways : Nat) (recency : Nat → List U64) (address : U64) (hit : Bool)
    (after : List CacheLine) (tracks : Tracks cache timer ways recency) (length : after.length = ways)
    (recent : RecentBy CacheLine.tag (timer + 1) after
      (Lru.touch ways (tagOf cache address) (recency (indexOf cache address)))) :
    Tracks (withSet cache (indexOf cache address) hit after) (timer + 1) ways (touched ways cache address recency) := by
  refine ⟨?_, ?_, fun set => ?_⟩
  · exact (Function.forall_update_iff cache.sets fun _ lines => lines.length = ways).mpr
      ⟨length, fun set _ => tracks.slots set⟩
  · exact (Function.forall_update_iff recency fun _ => Lru.Bounded ways).mpr
      ⟨Lru.touch_bounded ways _ _ (tracks.bounded _), fun set _ => tracks.bounded set⟩
  · by_cases here : set = indexOf cache address
    · subst here
      simp only [withSet, touched, Function.update_self]
      exact recent
    · simp only [withSet, touched, Function.update_of_ne here]
      exact recent_later CacheLine.tag timer _ _ _ (tracks.recent set) (Nat.le_succ timer)

theorem access_tracks (cache : CacheLevel) (timer ways : Nat) (recency : Nat → List U64) (traces : List MemAccess) (i : Nat)
    (positive : 0 < ways) (early : timer + 1 < 2 ^ 32) (tracks : Tracks cache timer ways recency) :
    Touched cache (cacheAccess .lru timer cache traces i).2 (timer + 1) ways (addrAt traces i) recency := by
  have slots := tracks.slots (indexOf cache (addrAt traces i))
  obtain ⟨hit, after, served, done⟩ := cache_access_effect .lru timer cache traces i
    (lru_victim_below _ (by rw [slots]; exact positive))
  have length := served_length _ _ _ _ _ _ served
  rw [Nat.mod_eq_of_lt early] at served
  obtain ⟨recent, outcome⟩ := recent_served CacheLine.tag (tagOf cache (addrAt traces i)) _ timer _ after _ (fun _ => Iff.rfl)
    hit early served (tracks.recent _) (tracks.bounded _).distinct
  rw [slots] at recent length
  have found : hit = decide (tagOf cache (addrAt traces i) ∈ recency (indexOf cache (addrAt traces i))) := by
    rw [Bool.eq_iff_iff, decide_eq_true_iff]
    exact outcome
  rw [done]
  refine ⟨set_tracks cache timer ways recency _ hit after tracks length recent, rfl, rfl, ?_, ?_⟩
  · simp only [withSet, found, decide_eq_true_eq]
  · simp only [withSet, found, decide_eq_true_eq]

structure Nested (small large : CacheLevel) (timer fewer more : Nat) (recency : Nat → List U64) : Prop where
  lineSize : small.lineSize = large.lineSize
  numSets : small.numSets = large.numSets
  front : Tracks small timer fewer (fun set => (recency set).take fewer)
  whole : Tracks large timer more recency
  hits : small.hits ≤ large.hits
  misses : large.misses ≤ small.misses

section Nested

variable (small large : CacheLevel) (timer fewer more : Nat) (recency : Nat → List U64)
  (nested : Nested small large timer fewer more recency)

include nested

theorem nested_set (address : U64) : indexOf small address = indexOf large address := by
  rw [indexOf, indexOf, nested.lineSize, nested.numSets]

theorem nested_tag (address : U64) : tagOf small address = tagOf large address := by
  rw [tagOf, tagOf, tagShift, tagShift, nested.lineSize, nested.numSets]

theorem nested_holds (set : Nat) (tag : U64) (held : HoldsTag small set tag) : HoldsTag large set tag := by
  rw [tracks_holds small timer fewer _ nested.front] at held
  rw [tracks_holds large timer more _ nested.whole]
  exact List.mem_of_mem_take held

theorem nested_touched (order : fewer ≤ more) (address : U64) :
    touched fewer small address (fun set => (recency set).take fewer) =
      fun set => (touched more large address recency set).take fewer := by
  funext set
  rw [touched, touched, nested_set small large timer fewer more recency nested,
    nested_tag small large timer fewer more recency nested]
  by_cases here : set = indexOf large address
  · subst here
    rw [Function.update_self, Function.update_self, Lru.touch_take fewer more order]
  · rw [Function.update_of_ne here, Function.update_of_ne here]

variable (traces : List MemAccess) (i : Nat)

theorem nested_access (positive : 0 < fewer) (order : fewer ≤ more) (early : timer + 1 < 2 ^ 32) :
    Nested (cacheAccess .lru timer small traces i).2 (cacheAccess .lru timer large traces i).2 (timer + 1) fewer more
        (touched more large (addrAt traces i) recency) ∧
      ((cacheAccess .lru timer small traces i).2.hits = small.hits + 1 →
        (cacheAccess .lru timer large traces i).2.hits = large.hits + 1) := by
  have one := access_tracks small timer fewer _ traces i positive early nested.front
  have two := access_tracks large timer more recency traces i (Nat.lt_of_lt_of_le positive order) early nested.whole
  have tracks := one.tracks
  rw [nested_touched small large timer fewer more recency nested order] at tracks
  have hits := nested.hits
  have misses := nested.misses
  have smallHits := one.hits
  have smallMisses := one.misses
  have largeHits := two.hits
  have largeMisses := two.misses
  rw [nested_set small large timer fewer more recency nested, nested_tag small large timer fewer more recency nested]
    at smallHits smallMisses
  by_cases held : tagOf large (addrAt traces i) ∈ (recency (indexOf large (addrAt traces i))).take fewer
  · have also := List.mem_of_mem_take held
    rw [if_pos held] at smallHits smallMisses
    rw [if_pos also] at largeHits largeMisses
    refine ⟨⟨?_, ?_, tracks, two.tracks, by omega, by omega⟩, fun _ => largeHits⟩
    · rw [one.lineSize, two.lineSize, nested.lineSize]
    · rw [one.numSets, two.numSets, nested.numSets]
  · rw [if_neg held] at smallHits smallMisses
    refine ⟨⟨?_, ?_, tracks, two.tracks, ?_, ?_⟩, fun hit => absurd hit (by omega)⟩
    · rw [one.lineSize, two.lineSize, nested.lineSize]
    · rw [one.numSets, two.numSets, nested.numSets]
    · omega
    · split at largeMisses <;> omega

end Nested

theorem init_result (p : Parameters) (lvl : Fin 3) :
    (cacheInit p lvl).2 = 0 ↔ isPowerOfTwo (p.lvlSize lvl / (p.lineSize * p.assoc lvl)) = true := by
  rw [cacheInit]
  cases isPowerOfTwo (p.lvlSize lvl / (p.lineSize * p.assoc lvl)) with
  | true => exact iff_of_true rfl rfl
  | false => exact iff_of_false (fun failed => absurd failed (by simp)) Bool.false_ne_true

theorem init_success (p : Parameters) (lvl : Fin 3) (done : (cacheInit p lvl).2 = 0) :
    0 < p.lineSize * p.assoc lvl ∧ (cacheInit p lvl).1 = ⟨p.lvlSize lvl, p.assoc lvl, p.lineSize,
      p.lvlSize lvl / (p.lineSize * p.assoc lvl), fun _ => List.replicate (p.assoc lvl) ⟨0, false, 0⟩, 0, 0⟩ := by
  have power := (init_result p lvl).mp done
  refine ⟨Nat.pos_of_ne_zero fun none => ?_, ?_⟩
  · rw [none, Nat.div_zero] at power
    exact absurd power (by decide)
  · rw [cacheInit, power]
    rfl

theorem init_tracks (p : Parameters) (lvl : Fin 3) (done : (cacheInit p lvl).2 = 0) :
    Tracks (cacheInit p lvl).1 0 (p.assoc lvl) (fun _ => []) := by
  rw [(init_success p lvl done).2]
  refine ⟨fun _ => List.length_replicate, fun _ => ⟨List.nodup_nil, Nat.zero_le _⟩, fun set => ?_⟩
  refine ⟨[], ?_, List.Pairwise.nil, rfl, fun line none => by cases none⟩
  rw [List.filter_replicate_of_neg Bool.false_ne_true]

section Levels

variable (lineSize numSets fewer more : Nat)

theorem level_init_same (order : fewer ≤ more) (done : (cacheInit (lruLevel lineSize numSets fewer) 0).2 = 0) :
    (cacheInit (lruLevel lineSize numSets more) 0).2 = 0 ∧
      ∀ ways, ways = fewer ∨ ways = more → (cacheInit (lruLevel lineSize numSets ways) 0).1 =
        ⟨numSets * lineSize * ways, ways, lineSize, numSets, fun _ => List.replicate ways ⟨0, false, 0⟩, 0, 0⟩ := by
  have positive : 0 < lineSize * fewer := (init_success _ 0 done).1
  have larger : 0 < lineSize * more := Nat.lt_of_lt_of_le positive (Nat.mul_le_mul_left lineSize order)
  have count (ways : Nat) (some : 0 < lineSize * ways) : numSets * lineSize * ways / (lineSize * ways) = numSets := by
    rw [Nat.mul_assoc]
    exact Nat.mul_div_cancel numSets some
  have also : (cacheInit (lruLevel lineSize numSets more) 0).2 = 0 := by
    rw [init_result] at done ⊢
    simp only [lruLevel, count fewer positive] at done
    simp only [lruLevel, count more larger]
    exact done
  refine ⟨also, fun ways which => ?_⟩
  rcases which with rfl | rfl
  · rw [(init_success _ 0 done).2]
    simp only [lruLevel, count ways positive]
  · rw [(init_success _ 0 also).2]
    simp only [lruLevel, count ways larger]

variable (traces : List MemAccess) (order : fewer ≤ more) (done : (cacheInit (lruLevel lineSize numSets fewer) 0).2 = 0)

include order done

theorem levels_nested (short : traces.length < 2 ^ 32) (n : Nat) (inTrace : n ≤ traces.length) :
    ∃ recency, Nested (levelAfter (lruLevel lineSize numSets fewer) 0 traces inOrder n)
      (levelAfter (lruLevel lineSize numSets more) 0 traces inOrder n) n fewer more recency := by
  have positive : 0 < fewer := Nat.pos_of_mul_pos_left (init_success _ 0 done).1
  induction n with
  | zero =>
      obtain ⟨also, same⟩ := level_init_same lineSize numSets fewer more order done
      have small := init_tracks _ 0 done
      have large := init_tracks _ 0 also
      refine ⟨fun _ => [], ?_⟩
      simp only [levelAfter]
      refine ⟨?_, ?_, ?_, large, ?_, ?_⟩
      · rw [same fewer (Or.inl rfl), same more (Or.inr rfl)]
      · rw [same fewer (Or.inl rfl), same more (Or.inr rfl)]
      · simp only [List.take_nil]
        exact small
      · rw [same fewer (Or.inl rfl)]
        exact Nat.zero_le _
      · rw [same more (Or.inr rfl)]
        exact Nat.zero_le _
  | succ n ih =>
      obtain ⟨recency, nested⟩ := ih (by omega)
      exact ⟨_, (nested_access _ _ n fewer more recency nested traces n positive order (by omega)).1⟩

end Levels

structure Included (small large : CacheLevel) : Prop where
  resident : ∀ set tag, HoldsTag small set tag → HoldsTag large set tag
  hits : small.hits ≤ large.hits
  misses : large.misses ≤ small.misses

-- cache_init refuses what is not a power of two, so numSets is one.
theorem lru_inclusion (lineSize numSets fewer more : Nat) (traces : List MemAccess) (short : traces.length < 2 ^ 32)
    (order : fewer ≤ more) (done : (cacheInit (lruLevel lineSize numSets fewer) 0).2 = 0) (n : Nat)
    (inTrace : n ≤ traces.length) :
    Included (levelAfter (lruLevel lineSize numSets fewer) 0 traces inOrder n)
        (levelAfter (lruLevel lineSize numSets more) 0 traces inOrder n) ∧
      (n < traces.length →
        (levelAfter (lruLevel lineSize numSets fewer) 0 traces inOrder (n + 1)).hits =
          (levelAfter (lruLevel lineSize numSets fewer) 0 traces inOrder n).hits + 1 →
        (levelAfter (lruLevel lineSize numSets more) 0 traces inOrder (n + 1)).hits =
          (levelAfter (lruLevel lineSize numSets more) 0 traces inOrder n).hits + 1) := by
  have positive : 0 < fewer := Nat.pos_of_mul_pos_left (init_success _ 0 done).1
  obtain ⟨recency, nested⟩ := levels_nested lineSize numSets fewer more traces order done short n inTrace
  refine ⟨⟨?_, nested.hits, nested.misses⟩, fun next hit => ?_⟩
  · exact nested_holds _ _ n fewer more recency nested
  · exact (nested_access _ _ n fewer more recency nested traces n positive order (by omega)).2 hit

theorem lru_inclusion_two_sets :
    Included (levelAfter (lruLevel 16 2 1) 0 conflictingReads inOrder 3)
        (levelAfter (lruLevel 16 2 3) 0 conflictingReads inOrder 3) ∧
      (levelAfter (lruLevel 16 2 3) 0 conflictingReads inOrder 3).misses = 2 ∧
      (levelAfter (lruLevel 16 2 1) 0 conflictingReads inOrder 3).misses = 3 :=
  ⟨(lru_inclusion 16 2 1 3 conflictingReads (by decide) (by decide) (by decide) 3 (by decide)).1, by decide, by decide⟩

end CpuEmulator.Cache
