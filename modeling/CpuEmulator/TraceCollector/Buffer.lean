import CpuEmulator.Uapi

set_option autoImplicit false

namespace CpuEmulator.TraceCollector

def chunkSize : Nat := 256

structure TraceChunk where
  entries : Fin chunkSize → MemAccess
  count : Nat

-- The chunks in list order. A trace_chunk * is the position of its chunk, which
-- never changes: chunks are only added, at the tail.
structure TraceBuffer where
  chunks : List TraceChunk
  totalCount : Nat
  writeChunk : Option Nat
  readChunk : Option Nat
  readOffset : Nat

def traceBufferInit : TraceBuffer := ⟨[], 0, none, none, 0⟩

-- Outcomes of the accesses to kernel memory: none is a pointer that leads
-- nowhere or an index outside entries.
def writeChunkFull (tb : TraceBuffer) : Option Bool :=
  match tb.writeChunk with
  | none => some true
  | some w => (tb.chunks[w]?).map (fun chunk => chunk.count == chunkSize)

-- entries is what kmalloc left in the new chunk.
def appendChunk (tb : TraceBuffer) (entries : Fin chunkSize → MemAccess) : TraceBuffer :=
  let grown := { tb with chunks := tb.chunks ++ [⟨entries, 0⟩], writeChunk := some tb.chunks.length }
  match tb.readChunk with
  | none => { grown with readChunk := some tb.chunks.length, readOffset := 0 }
  | some _ => grown

def storeEntry (tb : TraceBuffer) (entry : MemAccess) : Option TraceBuffer :=
  match tb.writeChunk with
  | none => none
  | some w =>
      match tb.chunks[w]? with
      | none => none
      | some chunk =>
          if inside : chunk.count < chunkSize then
            let entries := Function.update chunk.entries ⟨chunk.count, inside⟩ entry
            some { tb with chunks := tb.chunks.set w ⟨entries, chunk.count + 1⟩, totalCount := tb.totalCount + 1 }
          else none

structure WriteReply where
  buffer : TraceBuffer
  ret : Int

def traceBufferPush (tb : TraceBuffer) (entry : MemAccess) (kmalloc : Option (Fin chunkSize → MemAccess)) :
    Option WriteReply :=
  match writeChunkFull tb with
  | none => none
  | some false => (storeEntry tb entry).map (fun stored => ⟨stored, 0⟩)
  | some true =>
      match kmalloc with
      | none => some ⟨tb, -enomem⟩
      | some entries => (storeEntry (appendChunk tb entries) entry).map (fun stored => ⟨stored, 0⟩)

def traceWrite (tb : TraceBuffer) (len : Nat) (copyFault : Bool) (entry : MemAccess)
    (kmalloc : Option (Fin chunkSize → MemAccess)) : Option WriteReply :=
  if len < sizeofMemAccess then some ⟨tb, -einval⟩
  else if copyFault then some ⟨tb, -efault⟩
  else
    (traceBufferPush tb entry kmalloc).map fun pushed =>
      if pushed.ret ≠ 0 then pushed else ⟨pushed.buffer, sizeofMemAccess⟩

-- One pass of the read loop up to its copy_to_user: where the entry to be copied
-- lies, once an exhausted chunk has been left behind.
inductive ReadTurn where
  | fault
  | drained
  | copying (tb : TraceBuffer) (entry : MemAccess)

def entryAt (tb : TraceBuffer) (chunk : TraceChunk) : ReadTurn :=
  if inside : tb.readOffset < chunkSize then .copying tb (chunk.entries ⟨tb.readOffset, inside⟩) else .fault

def readTurn (tb : TraceBuffer) : ReadTurn :=
  match tb.readChunk with
  | none => .drained
  | some r =>
      match tb.chunks[r]? with
      | none => .fault
      | some chunk =>
          if chunk.count ≤ tb.readOffset then
            match tb.chunks[r + 1]? with
            | none => .drained
            | some next => entryAt { tb with readChunk := some (r + 1), readOffset := 0 } next
          else entryAt tb chunk

structure ReadReply where
  buffer : TraceBuffer
  ret : Int
  copied : List MemAccess

-- copyFault says which of the copy_to_user calls fail, counted from 0 in each read.
def readLoop (copyFault : Nat → Bool) : Nat → TraceBuffer → List MemAccess → Option ReadReply
  | 0, tb, copied => some ⟨tb, copied.length * sizeofMemAccess, copied⟩
  | remaining + 1, tb, copied =>
      match readTurn tb with
      | .fault => none
      | .drained => some ⟨tb, copied.length * sizeofMemAccess, copied⟩
      | .copying moved entry =>
          if copyFault copied.length then
            some ⟨moved, if 0 < copied.length then copied.length * sizeofMemAccess else -efault, copied⟩
          else
            readLoop copyFault remaining { moved with readOffset := moved.readOffset + 1 } (copied ++ [entry])

def traceRead (tb : TraceBuffer) (len : Nat) (copyFault : Nat → Bool) : Option ReadReply :=
  if len < sizeofMemAccess then some ⟨tb, -einval, []⟩
  else readLoop copyFault (len / sizeofMemAccess) tb []

end CpuEmulator.TraceCollector
