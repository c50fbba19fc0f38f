import AllocChain.Allocator
import AllocChain.Bump.Region

/-!
An arena is a stack of chunks, each a bump region over a block of the allocator behind it. Requests
are served from the newest chunk; if it has no room, a new one is acquired. Freeing the last block
of the newest chunk gives the chunk back, unless it is the only one.
-/

namespace AllocChain

/-- A block of the allocator behind, the alignment it was asked for with, and the bump region over
it. -/
structure Chunk where
  mem : Slice
  align : Nat
  region : Region
  deriving DecidableEq, Repr

/-- The least size of a chunk, and the chunks, the newest first. -/
structure Arena where
  chunkSize : Nat
  chunks : List Chunk
  deriving DecidableEq, Repr

namespace Arena

variable {β : Type}

/-- The size of a chunk if no other is asked for. -/
def defaultChunkSize : Nat := 4096

/-- An arena without chunks; size zero stands for the default. -/
def new (chunkSize : Nat) : Arena := ⟨if chunkSize = 0 then defaultChunkSize else chunkSize, []⟩

/-- The bytes taken in the newest chunk, headers and padding included. -/
def currentUsed (a : Arena) : Nat :=
  match a.chunks with
  | [] => 0
  | chunk :: _ => chunk.region.used

/-- The alignment that chunks have at least. -/
def leastChunkAlign : Nat := 8

/-- The size of a chunk that has room for the block: its header comes first, and the block after
it, aligned. `none` if there are not that many bytes. -/
def chunkCapacity (a : Arena) (size align : Nat) : Except Fault (Option Nat) := do
  let some start ← Word.alignUp? headerSize align | return none
  let some needed := Word.add? start size | return none
  return some (max needed a.chunkSize)

/-- Acquires a chunk with room for the block. -/
def acquire (B : Allocator β) (size align : Nat) : Act (Arena × β) (Except AllocError Chunk) := do
  let a ← Act.own
  match ← a.chunkCapacity size align with
  | none => return .error (.outOfMemory size align)
  | some capacity =>
    let chunkAlign := max align leastChunkAlign
    match ← Act.below (B.alloc capacity chunkAlign) with
    | .error e => return .error e
    | .ok mem =>
      Act.emit (.chunkAcquired capacity chunkAlign mem.addr)
      return .ok ⟨mem, chunkAlign, .ofSlice mem⟩

/-- Gives a chunk back. -/
def release (B : Allocator β) (chunk : Chunk) : Act (Arena × β) Unit := do
  Act.emit (.chunkReleased chunk.mem.len chunk.mem.addr)
  Act.below (B.free chunk.mem)

/-- Gives chunks back in the order of the list. -/
def releaseAll (B : Allocator β) : List Chunk → Act (Arena × β) Unit
  | [] => return ()
  | chunk :: chunks => do
    release B chunk
    releaseAll B chunks

/-- Puts a block on top of the chunk, if it has room; the chunk is not yet one of the arena's. -/
def pushOn (chunk : Chunk) (size align : Nat) : Act (Arena × β) (Option (Slice × Chunk)) := do
  match ← chunk.region.alloc (← Act.memory) size align with
  | none => return none
  | some (mem, region, memory) =>
    Act.changeMemory fun _ => memory
    return some (mem, { chunk with region })

/-- Puts a block on top of the newest chunk, if there is one and it has room. -/
def pushOnCurrent (size align : Nat) : Act (Arena × β) (Option Slice) := do
  let a ← Act.own
  match a.chunks with
  | [] => return none
  | chunk :: older =>
    match ← pushOn chunk size align with
    | none => return none
    | some (mem, chunk) =>
      Act.setOwn { a with chunks := chunk :: older }
      return some mem

/-- Serves a request from the newest chunk or from a new one. A new chunk without room for the
block goes back at once. -/
def serve (B : Allocator β) (size align : Nat) : Act (Arena × β) Answer := do
  match ← pushOnCurrent size align with
  | some mem =>
    Act.emit (.arenaAlloc size align mem.addr)
    return .ok mem
  | none =>
    match ← acquire B size align with
    | .error e => return .error e
    | .ok chunk =>
      Fault.demand (align ≤ chunk.align) .chunkBelowAlign
      match ← pushOn chunk size align with
      | none =>
        release B chunk
        return .error (.outOfMemory size align)
      | some (mem, chunk) =>
        let a ← Act.own
        Act.setOwn { a with chunks := chunk :: a.chunks }
        Act.emit (.arenaAllocInNewChunk size align mem.addr (a.chunks.length + 1))
        return .ok mem

/-- A block on the newest chunk, if the request is valid. -/
def alloc (B : Allocator β) : Nat → Nat → Act (Arena × β) Answer := allocBy (serve B)

/-- Gives back the top block of the newest chunk, and the chunk with it when that leaves the chunk
unused and it is not the only one. Any other block stays where it is. -/
def free (B : Allocator β) (mem : Slice) : Act (Arena × β) Unit := do
  if mem.isNull then return ()
  let a ← Act.own
  match a.chunks with
  | [] => return ()
  | chunk :: older =>
    match ← chunk.region.freeTop (← Act.memory) mem with
    | none => Act.emit (.arenaFreeIgnored mem.addr)
    | some region =>
      let chunk := { chunk with region }
      Act.emit (.arenaFree mem.addr region.used)
      if region.used = 0 ∧ older ≠ [] then
        Act.setOwn { a with chunks := older }
        release B chunk
      else
        Act.setOwn { a with chunks := chunk :: older }

/-- The chunks after `mem` has been resized in place in the newest chunk that it lies in. -/
def resizeIn (mem : Slice) (size align : Nat) : List Chunk → Except Fault (Option (List Chunk))
  | [] => return none
  | chunk :: older => do
    if ← chunk.region.owns mem then
      let some region ← chunk.region.resizeInPlace mem size align | return none
      return some ({ chunk with region } :: older)
    else
      let some older ← resizeIn mem size align older | return none
      return some (chunk :: older)

/-- Resizes in place where a chunk can, and moves the block otherwise. -/
def adjust (B : Allocator β) (mem : Slice) (size align : Nat) : Act (Arena × β) Answer := do
  let a ← Act.own
  match ← resizeIn mem size align a.chunks with
  | none => relocate (alloc B) (free B) mem size align
  | some chunks =>
    Act.setOwn { a with chunks }
    Act.emit (.arenaResizeInPlace mem.len size mem.addr)
    return .ok ⟨mem.addr, size⟩

/-- Gives back all chunks but the oldest, which is kept unused. -/
def reset (B : Allocator β) : Act (Arena × β) Unit := do
  let a ← Act.own
  match a.chunks.getLast? with
  | none => return ()
  | some oldest =>
    Act.setOwn { a with chunks := [{ oldest with region := oldest.region.reset }] }
    releaseAll B a.chunks.dropLast

/-- Gives back all chunks, the newest first. -/
def destroy (B : Allocator β) : Act (Arena × β) Unit := do
  let a ← Act.own
  Act.setOwn { a with chunks := [] }
  if a.chunks ≠ [] then
    Act.emit (.arenaDestroyed a.chunks.length)
  releaseAll B a.chunks

/-- The arena over the allocator `B`. -/
def allocator (B : Allocator β) : Allocator (Arena × β) where
  alloc := alloc B
  resize := resizeBy (alloc B) (free B) (adjust B)
  free := free B

end Arena
end AllocChain
