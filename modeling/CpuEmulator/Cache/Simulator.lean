import CpuEmulator.Uapi

set_option autoImplicit false

namespace CpuEmulator.Cache

inductive ReplacementPolicy where
  | lru
  | optimal
deriving DecidableEq, Repr

-- The static variables that the user's answers set; level n has index n - 1.
structure Parameters where
  numLvls : Nat
  lineSize : Nat
  assoc : Fin 3 → Nat
  lvlSize : Fin 3 → Nat
  policy : ReplacementPolicy

def fastLog2Loop : Nat → Nat → Nat → Nat
  | 0, _, log => log
  | fuel + 1, n, log => if n / 2 = 0 then log else fastLog2Loop fuel (n / 2) (log + 1)

-- A uint32_t is zero after 32 shifts.
def fastLog2 (n : Nat) : Nat := fastLog2Loop 32 n 0

def isPowerOfTwo (x : Nat) : Bool := x != 0 && x &&& (x - 1) == 0

def isValidNumLvls (numLvls : Nat) : Bool := 1 ≤ numLvls && numLvls ≤ 3
def isValidLineSize (lineSize : Nat) : Bool := lineSize == 16 || lineSize == 32 || lineSize == 64
def isValidAssoc (assoc : Nat) : Bool := isPowerOfTwo assoc && assoc ≤ 8

def lvlMaxSize (lvl : Fin 3) : Nat :=
  match lvl with
  | 0 => 2048
  | 1 => 4096
  | 2 => 8192

def isValidLvlSize (p : Parameters) (lvlSize : Nat) (lvl : Fin 3) : Bool :=
  isPowerOfTwo lvlSize && p.assoc lvl * p.lineSize ≤ lvlSize && lvlSize ≤ lvlMaxSize lvl

def Parameters.present (p : Parameters) (lvl : Fin 3) : Prop := lvl.val < p.numLvls

instance (p : Parameters) (lvl : Fin 3) : Decidable (p.present lvl) := inferInstanceAs (Decidable (_ < _))

-- get_valid_input asks again until its validator is satisfied, so these hold
-- once configure_cache_sim_parameters has returned.
structure Accepted (p : Parameters) : Prop where
  numLvls : isValidNumLvls p.numLvls
  lineSize : isValidLineSize p.lineSize
  assoc : ∀ lvl, p.present lvl → isValidAssoc (p.assoc lvl)
  lvlSize : ∀ lvl, p.present lvl → isValidLvlSize p (p.lvlSize lvl) lvl

structure CacheLine where
  tag : U64
  valid : Bool
  lastUsed : Nat
deriving DecidableEq, Repr

structure CacheLevel where
  size : Nat
  associativity : Nat
  lineSize : Nat
  numSets : Nat
  sets : Nat → List CacheLine
  hits : Nat
  misses : Nat

-- A level that is not in use is left uninitialised and never touched.
def unusedLevel : CacheLevel := ⟨0, 0, 0, 0, fun _ => [], 0, 0⟩

def cacheInit (p : Parameters) (lvl : Fin 3) : CacheLevel × Int :=
  let numSets := p.lvlSize lvl / (p.lineSize * p.assoc lvl)
  let cache := ⟨p.lvlSize lvl, p.assoc lvl, p.lineSize, numSets, fun _ => [], 0, 0⟩
  if !isPowerOfTwo numSets then (cache, -1)
  else ({ cache with sets := fun _ => List.replicate (p.assoc lvl) ⟨0, false, 0⟩ }, 0)

-- traces[i].addr; the simulation stays below total_traces.
def addrAt (traces : List MemAccess) (i : Nat) : U64 := (traces[i]?).elim 0 (fun access => access.addr)

def tagShift (cache : CacheLevel) : Nat := fastLog2 cache.lineSize + fastLog2 cache.numSets

def tagOf (cache : CacheLevel) (address : U64) : U64 := address >>> tagShift cache

def indexOf (cache : CacheLevel) (address : U64) : Nat :=
  ((address >>> fastLog2 cache.lineSize) &&& BitVec.ofNat 64 (cache.numSets - 1)).toNat

-- The first later position with that tag; none is the SIZE_MAX that no position reaches.
def nextUse (cache : CacheLevel) (tag : U64) (traces : List MemAccess) (currentIdx : Nat) : Option Nat :=
  ((traces.drop (currentIdx + 1)).findIdx? (fun access => tagOf cache access.addr == tag)).map (· + (currentIdx + 1))

def optimalScan (cache : CacheLevel) (traces : List MemAccess) (currentIdx : Nat) :
    List CacheLine → Nat → Nat → Nat → Nat
  | [], _, _, victim => victim
  | line :: rest, i, furthest, victim =>
      match nextUse cache line.tag traces currentIdx with
      | none => i
      | some next =>
          if furthest < next then optimalScan cache traces currentIdx rest (i + 1) next i
          else optimalScan cache traces currentIdx rest (i + 1) furthest victim

def findOptimalVictim (cache : CacheLevel) (lines : List CacheLine) (traces : List MemAccess) (currentIdx : Nat) : Nat :=
  optimalScan cache traces currentIdx lines 0 0 0

def lruScan : List CacheLine → Nat → Nat → Nat → Nat
  | [], _, _, victim => victim
  | line :: rest, i, minTime, victim =>
      if line.lastUsed < minTime then lruScan rest (i + 1) line.lastUsed i else lruScan rest (i + 1) minTime victim

def uint32Max : Nat := 2 ^ 32 - 1

def victimOf (policy : ReplacementPolicy) (cache : CacheLevel) (lines : List CacheLine) (traces : List MemAccess)
    (currentIdx : Nat) : Nat :=
  match policy with
  | .lru => lruScan lines 0 uint32Max 0
  | .optimal => findOptimalVictim cache lines traces currentIdx

def hitSlot (lines : List CacheLine) (tag : U64) : Option Nat :=
  lines.findIdx? (fun line => line.valid && line.tag == tag)

def emptySlot (lines : List CacheLine) : Option Nat := lines.findIdx? (fun line => !line.valid)

-- The counters are 64 bits wide and count at most one for each trace entry.
-- The result pairs the advanced global_timer with the level.
def cacheAccess (policy : ReplacementPolicy) (globalTimer : Nat) (cache : CacheLevel) (traces : List MemAccess)
    (currentIdx : Nat) : Nat × CacheLevel :=
  let timer := (globalTimer + 1) % 2 ^ 32
  let address := addrAt traces currentIdx
  let index := indexOf cache address
  let tag := tagOf cache address
  let lines := cache.sets index
  match hitSlot lines tag with
  | some i =>
      (timer, { cache with
        hits := cache.hits + 1
        sets := Function.update cache.sets index (lines.modify i (fun line => { line with lastUsed := timer })) })
  | none =>
      match emptySlot lines with
      | some i =>
          (timer, { cache with
            misses := cache.misses + 1
            sets := Function.update cache.sets index (lines.modify i (fun _ => ⟨tag, true, timer⟩)) })
      | none =>
          let victim := victimOf policy cache lines traces currentIdx
          (timer, { cache with
            misses := cache.misses + 1
            sets := Function.update cache.sets index
              (lines.modify victim (fun line => { line with tag := tag, lastUsed := timer })) })

structure Simulation where
  globalTimer : Nat
  l1 : CacheLevel
  l2 : CacheLevel
  l3 : CacheLevel

def simulationStart (p : Parameters) : Simulation where
  globalTimer := 0
  l1 := (cacheInit p 0).1
  l2 := if 1 < p.numLvls then (cacheInit p 1).1 else unusedLevel
  l3 := if 2 < p.numLvls then (cacheInit p 2).1 else unusedLevel

-- hits_before is a uint32_t copy of the 64-bit counter it is compared with.
def simulationStep (p : Parameters) (traces : List MemAccess) (i : Nat) (s : Simulation) : Simulation :=
  let l1HitsBefore := s.l1.hits % 2 ^ 32
  let (timer, l1) := cacheAccess p.policy s.globalTimer s.l1 traces i
  if 1 < p.numLvls ∧ l1.hits = l1HitsBefore then
    let l2HitsBefore := s.l2.hits % 2 ^ 32
    let (timer, l2) := cacheAccess p.policy timer s.l2 traces i
    if 2 < p.numLvls ∧ l2.hits = l2HitsBefore then
      let (timer, l3) := cacheAccess p.policy timer s.l3 traces i
      ⟨timer, l1, l2, l3⟩
    else ⟨timer, l1, l2, s.l3⟩
  else ⟨timer, l1, s.l2, s.l3⟩

def simulate (p : Parameters) (traces : List MemAccess) : Nat → Simulation
  | 0 => simulationStart p
  | n + 1 => simulationStep p traces n (simulate p traces n)

end CpuEmulator.Cache
