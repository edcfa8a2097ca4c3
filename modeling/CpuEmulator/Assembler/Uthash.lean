import CpuEmulator.Assembler.Text
import CpuEmulator.Library.Buckets

set_option autoImplicit false

namespace CpuEmulator.Assembler

open Library

abbrev U32 := BitVec 32

structure LabelAddress where
  key : Text
  value : U64
deriving DecidableEq, Repr

structure HashJen where
  i : U32
  j : U32
  hashv : U32
deriving DecidableEq, Repr

def hashJenMix (a b c : U32) : HashJen :=
  let a := (a - b - c) ^^^ (c >>> 13)
  let b := (b - c - a) ^^^ (a <<< 8)
  let c := (c - a - b) ^^^ (b >>> 13)
  let a := (a - b - c) ^^^ (c >>> 12)
  let b := (b - c - a) ^^^ (a <<< 16)
  let c := (c - a - b) ^^^ (b >>> 5)
  let a := (a - b - c) ^^^ (c >>> 3)
  let b := (b - c - a) ^^^ (a <<< 10)
  let c := (c - a - b) ^^^ (b >>> 15)
  ⟨a, b, c⟩

def byteAt (key : Text) (n : Nat) : U32 := BitVec.ofNat 32 ((key.getD n nul).toNat)

def wordAt (key : Text) (n : Nat) : U32 :=
  byteAt key n + (byteAt key (n + 1) <<< 8) + (byteAt key (n + 2) <<< 16) + (byteAt key (n + 3) <<< 24)

-- while (_hj_k >= 12U), then the switch: a byte that is not there adds nothing.
def hashJenFrom (keylen : Nat) (state : HashJen) : Text → U32
  | a :: b :: c :: d :: e :: f :: g :: h :: k :: l :: m :: n :: key =>
      let block := [a, b, c, d, e, f, g, h, k, l, m, n]
      hashJenFrom keylen (hashJenMix (state.i + wordAt block 0) (state.j + wordAt block 4) (state.hashv + wordAt block 8)) key
  | key =>
      (hashJenMix (state.i + wordAt key 0) (state.j + wordAt key 4)
        (state.hashv + BitVec.ofNat 32 keylen + (byteAt key 8 <<< 8) + (byteAt key 9 <<< 16) + (byteAt key 10 <<< 24))).hashv

def hashJen (key : Text) : U32 := hashJenFrom key.length ⟨0x9e3779b9, 0x9e3779b9, 0xfeedbeef⟩ key

structure HashBucket where
  chain : List LabelAddress
  expandMult : Nat
deriving DecidableEq, Repr

-- count is the length of a chain, num_buckets that of buckets. The counters are
-- unsigned in the source and taken not to wrap: 2^32 buckets would need 64 GB.
structure HashTable where
  buckets : List HashBucket
  log2NumBuckets : Nat
  numItems : Nat
  ineffExpands : Nat
  noexpand : Bool
deriving DecidableEq, Repr

-- The table that the first entry comes to; a NULL head is the table without entries.
def hashMakeTable : HashTable := ⟨List.replicate 32 ⟨[], 0⟩, 5, 0, 0, false⟩

def hashToBkt (hashv : U32) (numBkts : Nat) : Nat := hashv.toNat &&& (numBkts - 1)

def hashFindBkt (table : HashTable) (key : Text) : Nat := hashToBkt (hashJen key) table.buckets.length

def bucketAt (buckets : List HashBucket) (bkt : Nat) : HashBucket := buckets.getD bkt ⟨[], 0⟩

def hashFindStr (table : HashTable) (key : Text) : Option Nat :=
  (bucketAt table.buckets (hashFindBkt table key)).chain.findIdx? (fun entry => entry.key == key)

structure Expansion where
  buckets : List HashBucket
  nonidealItems : Nat
deriving DecidableEq, Repr

def rehash (idealChainMaxlen : Nat) (expansion : Expansion) (entry : LabelAddress) : Expansion :=
  let bkt := hashToBkt (hashJen entry.key) expansion.buckets.length
  let count := (bucketAt expansion.buckets bkt).chain.length + 1
  let nonideal : Bool := idealChainMaxlen < count
  ⟨expansion.buckets.modify bkt fun bucket =>
      ⟨entry :: bucket.chain,
        if nonideal && bucket.expandMult * idealChainMaxlen < count then bucket.expandMult + 1 else bucket.expandMult⟩,
    if nonideal then expansion.nonidealItems + 1 else expansion.nonidealItems⟩

def hashExpandBuckets (table : HashTable) : HashTable :=
  let numBuckets := table.buckets.length * 2
  let idealChainMaxlen := (table.numItems >>> (table.log2NumBuckets + 1)) + if table.numItems &&& (numBuckets - 1) ≠ 0 then 1 else 0
  let expansion := (table.buckets.flatMap HashBucket.chain).foldl (rehash idealChainMaxlen)
    ⟨List.replicate numBuckets ⟨[], 0⟩, 0⟩
  let ineffExpands := if table.numItems >>> 1 < expansion.nonidealItems then table.ineffExpands + 1 else 0
  ⟨expansion.buckets, table.log2NumBuckets + 1, table.numItems, ineffExpands, if 1 < ineffExpands then true else table.noexpand⟩

def hashAddToBkt (table : HashTable) (bkt : Nat) (entry : LabelAddress) : HashTable :=
  let added : HashTable := { table with
    buckets := table.buckets.modify bkt fun bucket => { bucket with chain := entry :: bucket.chain } }
  let bucket := bucketAt added.buckets bkt
  if (bucket.expandMult + 1) * 10 ≤ bucket.chain.length ∧ added.noexpand = false then hashExpandBuckets added else added

def hashAddStr (table : HashTable) (entry : LabelAddress) : HashTable :=
  hashAddToBkt { table with numItems := table.numItems + 1 } (hashFindBkt table entry.key) entry

section Entries

def chainsOf (buckets : List HashBucket) : List (List LabelAddress) := buckets.map HashBucket.chain

def HashTable.entries (table : HashTable) : List LabelAddress := (chainsOf table.buckets).flatten

def homeOf (numBkts : Nat) (entry : LabelAddress) : Nat := hashToBkt (hashJen entry.key) numBkts

structure Sound (table : HashTable) : Prop where
  filled : 0 < table.buckets.length
  placed : Buckets.Placed (homeOf table.buckets.length) (chainsOf table.buckets)

section Chains

variable (buckets : List HashBucket) (bkt : Nat)

theorem chains_length : (chainsOf buckets).length = buckets.length := List.length_map _

theorem bucket_at_chain : (bucketAt buckets bkt).chain = Buckets.bucket (chainsOf buckets) bkt := by
  rw [bucketAt, Buckets.bucket, chainsOf, List.getD_eq_getElem?_getD, List.getD_eq_getElem?_getD, List.getElem?_map]
  cases buckets[bkt]? <;> rfl

theorem chains_modify (f : HashBucket → HashBucket) (g : List LabelAddress → List LabelAddress)
    (same : ∀ bucket, (f bucket).chain = g bucket.chain) : chainsOf (buckets.modify bkt f) = (chainsOf buckets).modify bkt g := by
  induction buckets generalizing bkt with
  | nil =>
      rw [List.modify_nil]
      exact (List.modify_nil _ _).symm
  | cons bucket buckets ih =>
      cases bkt with
      | zero => exact congrArg (· :: chainsOf buckets) (same bucket)
      | succ bkt => exact congrArg (bucket.chain :: ·) (ih bkt)

theorem to_bkt_below (hashv : U32) (numBkts : Nat) (filled : 0 < numBkts) : hashToBkt hashv numBkts < numBkts :=
  Nat.lt_of_le_of_lt Nat.and_le_right (Nat.sub_lt filled Nat.one_pos)

end Chains

theorem push_sound (table : HashTable) (sound : Sound table) (entry : LabelAddress) (f : HashBucket → HashBucket)
    (pushes : ∀ bucket, (f bucket).chain = entry :: bucket.chain) (buckets : List HashBucket)
    (pushed : buckets = table.buckets.modify (hashFindBkt table entry.key) f) :
    buckets.length = table.buckets.length ∧ Buckets.Placed (homeOf table.buckets.length) (chainsOf buckets) ∧
      (chainsOf buckets).flatten.Perm (entry :: table.entries) := by
  have inside : hashFindBkt table entry.key < (chainsOf table.buckets).length := by
    rw [chains_length]
    exact to_bkt_below _ _ sound.filled
  rw [pushed, chains_modify _ _ f _ pushes, List.length_modify]
  exact ⟨rfl, Buckets.placed_push _ _ entry _ sound.placed rfl, Buckets.push_perm _ _ entry inside⟩

theorem rehash_run (ideal numBkts : Nat) (filled : 0 < numBkts) (entries : List LabelAddress) (expansion : Expansion)
    (length : expansion.buckets.length = numBkts) (placed : Buckets.Placed (homeOf numBkts) (chainsOf expansion.buckets)) :
    (entries.foldl (rehash ideal) expansion).buckets.length = numBkts ∧
      Buckets.Placed (homeOf numBkts) (chainsOf (entries.foldl (rehash ideal) expansion).buckets) ∧
      (chainsOf (entries.foldl (rehash ideal) expansion).buckets).flatten.Perm (entries ++ (chainsOf expansion.buckets).flatten) := by
  induction entries generalizing expansion with
  | nil => exact ⟨length, placed, .refl _⟩
  | cons entry entries ih =>
      have sound : Sound ⟨expansion.buckets, 0, 0, 0, false⟩ := ⟨length ▸ filled, length ▸ placed⟩
      obtain ⟨still, home, all⟩ := push_sound _ sound entry _ (fun _ => rfl) (rehash ideal expansion entry).buckets rfl
      obtain ⟨same, kept, perm⟩ := ih (rehash ideal expansion entry) (still.trans length) (length ▸ home)
      refine ⟨same, kept, perm.trans ?_⟩
      exact (all.append_left entries).trans List.perm_middle

theorem expand_entries (table : HashTable) (sound : Sound table) :
    Sound (hashExpandBuckets table) ∧ (hashExpandBuckets table).entries.Perm table.entries := by
  have filled : 0 < table.buckets.length * 2 := Nat.mul_pos sound.filled (by decide)
  have empty : chainsOf (List.replicate (table.buckets.length * 2) ⟨[], 0⟩) = List.replicate (table.buckets.length * 2) [] :=
    List.map_replicate
  obtain ⟨length, placed, perm⟩ := rehash_run _ _ filled (table.buckets.flatMap HashBucket.chain)
    ⟨List.replicate (table.buckets.length * 2) ⟨[], 0⟩, 0⟩ List.length_replicate (empty ▸ Buckets.placed_empty _ _)
  refine ⟨⟨length ▸ filled, ?_⟩, perm.trans ?_⟩
  · rw [hashExpandBuckets]
    dsimp only
    rw [length]
    exact placed
  · rw [empty, List.flatten_replicate_nil, List.append_nil, List.flatMap_def]
    exact .refl _

theorem add_entries (table : HashTable) (sound : Sound table) (entry : LabelAddress) :
    Sound (hashAddStr table entry) ∧ (hashAddStr table entry).entries.Perm (entry :: table.entries) := by
  obtain ⟨length, placed, perm⟩ := push_sound table sound entry (fun bucket => { bucket with chain := entry :: bucket.chain })
    (fun _ => rfl) _ rfl
  rw [hashAddStr, hashAddToBkt]
  dsimp only
  have added : Sound { table with
      buckets := table.buckets.modify (hashFindBkt table entry.key) fun bucket => { bucket with chain := entry :: bucket.chain },
      numItems := table.numItems + 1 } := ⟨length ▸ sound.filled, length ▸ placed⟩
  split
  · obtain ⟨expanded, same⟩ := expand_entries _ added
    exact ⟨expanded, same.trans perm⟩
  · exact ⟨added, perm⟩

theorem make_table_entries : hashMakeTable.entries = [] := rfl

theorem make_table_sound : Sound hashMakeTable := ⟨by decide, Buckets.placed_empty _ 32⟩

-- One bucket is searched, but no entry of the others has the key.
theorem find_in_entries (table : HashTable) (sound : Sound table) (key : Text) :
    (hashFindStr table key).isSome ↔ ∃ entry ∈ table.entries, entry.key = key := by
  rw [hashFindStr, List.findIdx?_isSome, List.any_eq_true, bucket_at_chain]
  constructor
  · rintro ⟨entry, member, same⟩
    exact ⟨entry, (Buckets.mem_flatten _ entry).mpr ⟨_, member⟩, beq_iff_eq.mp same⟩
  · rintro ⟨entry, member, rfl⟩
    exact ⟨entry, (Buckets.mem_placed _ entry _ sound.placed).mp member, beq_iff_eq.mpr rfl⟩

end Entries

end CpuEmulator.Assembler
