import AllocChain.Allocator
import AllocChain.Bump.Region

/-!
The fixed allocator hands out blocks of one bump region and has nothing behind it. Once the buffer
is full every request is refused.
-/

namespace AllocChain.Fixed

/-- A fixed allocator over memory that someone else supplied; it has to be there. -/
def ofSlice (mem : Slice) : Except AllocError Region :=
  if mem.isNull || mem.len == 0 then .error .emptyBuffer else .ok (.ofSlice mem)

/-- The state of a fixed allocator is its region, with nothing below. -/
abbrev Step (α : Type) := Act Region α

/-- Puts a block on top of the region. -/
def push (size align : Nat) : Step Answer := do
  let (r, machine) ← get
  match ← r.alloc machine.memory size align with
  | none => return .error (.outOfMemory size align)
  | some (mem, r, memory) =>
    set (r, { machine with memory })
    Act.emit (.fixedAlloc size align mem.addr)
    return .ok mem

/-- A block at the top, if the request is valid. -/
def alloc : Nat → Nat → Step Answer := allocBy push

/-- Only the top block can be given back; any other stays taken until the region is reset. -/
def free (mem : Slice) : Step Unit := do
  if mem.isNull then return ()
  let (r, machine) ← get
  match ← r.freeTop machine.memory mem with
  | none => Act.emit (.fixedFreeIgnored mem.addr)
  | some r => set (r, machine)

/-- Resizes in place where the region can, and moves the block otherwise. -/
def adjust (mem : Slice) (size align : Nat) : Step Answer := do
  let (r, machine) ← get
  match ← r.resizeInPlace mem size align with
  | none => relocate alloc free mem size align
  | some r =>
    set (r, machine)
    Act.emit (.fixedResizeInPlace mem.len size mem.addr)
    return .ok ⟨mem.addr, size⟩

/-- The fixed allocator. -/
def allocator : Allocator Region where
  alloc := alloc
  resize := resizeBy alloc free adjust
  free := free

end AllocChain.Fixed
