import AllocChain.Allocator
import AllocChain.Platform.Basic

/-!
The heap of the platform, on which every allocator stands for which nothing else is named. Small
alignments come for free; a block with a larger one is never resized by the heap itself but moved.
When the heap resizes a block it goes by the length that it recorded, whatever length the caller
names.
-/

namespace AllocChain.PlatformHeap

/-- The alignment that every block has. -/
def naturalAlign : Nat := 16

/-- Whether a block of this size is aligned well enough without being asked for. -/
def alignsByItself (size align : Nat) : Bool := align ≤ naturalAlign && align ≤ size

/-- Fresh memory of the platform, recorded as a block. -/
def reserve (size align : Nat) : Act Platform (Option Nat) :=
  modifyGet fun (p, machine) =>
    match p.reserve size align with
    | (none, p) => (none, (p, machine))
    | (some addr, p) => (some addr, (p.hold ⟨addr, size⟩, machine))

/-- Hands out fresh memory. -/
def serve (size align : Nat) : Act Platform Answer := do
  match ← reserve size (max align naturalAlign) with
  | none => return .error (.outOfMemory size align)
  | some addr =>
    Act.emit (.heapAlloc size align addr)
    return .ok ⟨addr, size⟩

/-- Fresh memory, if the request is valid. -/
def alloc : Nat → Nat → Act Platform Answer := allocBy serve

/-- Memory of the platform is not used twice, so all that is left to do is to strike the block from
the record. -/
def free (mem : Slice) : Act Platform Unit := do
  if mem.isNull then return ()
  Act.emit (.heapFree mem.addr)
  modify fun (p, machine) => (p.forget mem.addr, machine)

/-- The address of the block at `addr` once it has `size` bytes. A block that shrinks stays where it
is; one that grows is moved to fresh memory with all the bytes it had. -/
def regrow (addr size : Nat) : Act Platform (Option Nat) := do
  let (p, _) ← get
  let held := p.lengthAt addr
  if size ≤ held then
    modify fun (p, machine) => (p.hold ⟨addr, size⟩, machine)
    return some addr
  else
    match ← reserve size naturalAlign with
    | none => return none
    | some fresh =>
      Act.changeMemory (·.copyCommon ⟨addr, held⟩ ⟨fresh, size⟩)
      modify fun (p, machine) => (p.forget addr, machine)
      return some fresh

/-- The heap resizes a block itself if the new one is aligned anyway, and moves it otherwise. -/
def adjust (mem : Slice) (size align : Nat) : Act Platform Answer := do
  if alignsByItself size align then
    match ← regrow mem.addr size with
    | none => return .error (.outOfMemory size align)
    | some addr =>
      Act.emit (.heapRealloc mem.len size addr)
      return .ok ⟨addr, size⟩
  else relocate alloc free mem size align

/-- The heap of the platform. -/
def allocator : Allocator Platform where
  alloc := alloc
  resize := resizeBy alloc free adjust
  free := free

end AllocChain.PlatformHeap
