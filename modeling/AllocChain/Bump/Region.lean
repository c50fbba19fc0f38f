import AllocChain.Bump.Place
import AllocChain.Memory.Basic

/-!
A bump region is a buffer that is used up from its start, with a stack discipline for giving
blocks back. In front of every block stands a header of eight bytes in memory; it holds how much
of the region was used before the block was made.

    base                                        used      capacity
    |-----|----------|-----|----------|---------|---------|
    | hdr | block A  | hdr | block B  | padding |  free   |

Only the block that ends exactly at `used` can be freed or grown. Which block a slice belongs to is
not recorded: whatever slice ends at `used` and leaves room for a header counts as the top block.
-/

namespace AllocChain

/-- The bytes in front of a block that hold its header. -/
def headerSize : Nat := 8

/-- A buffer of `capacity` bytes at `base`, of which the first `used` are taken. -/
structure Region where
  base : Nat
  capacity : Nat
  used : Nat
  deriving DecidableEq, Repr

namespace Region

/-- The unused region over the memory that `mem` names. -/
def ofSlice (mem : Slice) : Region := ⟨mem.addr, mem.len, 0⟩

/-- The bytes that are not taken. -/
def remaining (r : Region) : Except Fault Nat := Word.sub r.capacity r.used

/-- The region with all its blocks forgotten. -/
def reset (r : Region) : Region := { r with used := 0 }

/-- The offset that a block would get, leaving room for its header. -/
def fit (r : Region) (size align : Nat) : Except Fault (Option Nat) := do
  let taken ← Word.add r.used headerSize
  place r.base r.capacity taken size align

/-- A new block, the region that ends with it, and the memory with its header. -/
def alloc (r : Region) (memory : Memory) (size align : Nat) :
    Except Fault (Option (Slice × Region × Memory)) := do
  let some start ← r.fit size align | return none
  let addr := r.base + start
  return some (⟨addr, size⟩, { r with used := start + size },
    memory.writeWord (addr - headerSize) r.used)

/-- Whether the slice lies in the buffer with room for a header in front. -/
def owns (r : Region) (mem : Slice) : Except Fault Bool := do
  let lowest ← Word.add r.base headerSize
  if mem.addr < lowest then return false
  let stop ← mem.stop
  let limit ← Word.add r.base r.capacity
  return stop ≤ limit

/-- Whether the slice is in the buffer and ends where the used part ends. -/
def isTop (r : Region) (mem : Slice) : Except Fault Bool := do
  if !(← r.owns mem) then return false
  let stop ← mem.stop
  let top ← Word.add r.base r.used
  return stop == top

/-- The region without its top block, if `mem` is that block: its header says what is used then. -/
def freeTop (r : Region) (memory : Memory) (mem : Slice) : Except Fault (Option Region) := do
  if !(← r.isTop mem) then return none
  return some { r with used := memory.readWord (mem.addr - headerSize) }

/-- The region after `mem` has got a new size without being moved, if that can be done. The top
block may take all bytes up to the end of the buffer; any other block may only shrink, and what it
loses stays taken. -/
def resizeInPlace (r : Region) (mem : Slice) (size align : Nat) : Except Fault (Option Region) := do
  if !(← r.owns mem) then return none
  if !(← Word.isAligned mem.addr align) then return none
  let start ← Word.sub mem.addr r.base
  if ← r.isTop mem then
    let some stop := Word.add? start size | return none
    return if r.capacity < stop then none else some { r with used := stop }
  return if size ≤ mem.len then some r else none

end Region
end AllocChain
