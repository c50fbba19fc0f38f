import AllocChain.Allocator
import AllocChain.Bump.Place

/-!
A slab pool bumps through blocks of the allocator behind it and never reuses a byte: freeing a
block does nothing, and the slabs go back only when the pool is destroyed, the oldest first.
-/

namespace AllocChain

/-- A block of the allocator behind, of which the bytes below `offset` are taken. -/
structure Slab where
  mem : Slice
  offset : Nat
  deriving DecidableEq, Repr

/-- The slab with a block put on top, if it has room. -/
def Slab.bump (s : Slab) (size align : Nat) : Except Fault (Option (Slice × Slab)) := do
  let some start ← place s.mem.addr s.mem.len s.offset size align | return none
  return some (⟨s.mem.addr + start, size⟩, { s with offset := start + size })

/-- The least size of a slab, and the slabs, the newest first. -/
structure SlabPool where
  slabSize : Nat
  slabs : List Slab
  deriving DecidableEq, Repr

namespace SlabPool

variable {β : Type}

/-- The size of a slab if no other is asked for. -/
def defaultSlabSize : Nat := 4096

/-- A pool without slabs; size zero stands for the default. -/
def new (slabSize : Nat) : SlabPool := ⟨if slabSize = 0 then defaultSlabSize else slabSize, []⟩

/-- The alignment that slabs have at least. -/
def leastSlabAlign : Nat := 8

/-- The newest slab with a block put on top, if there is one and it has room. -/
def bumpNewest (p : SlabPool) (size align : Nat) : Except Fault (Option (Slice × SlabPool)) :=
  match p.slabs with
  | [] => return none
  | slab :: older => do
    let some (mem, slab) ← slab.bump size align | return none
    return some (mem, { p with slabs := slab :: older })

/-- Serves a request from the newest slab or from a new one. A new slab without room for the block
goes back at once. -/
def serve (B : Allocator β) (size align : Nat) : Act (SlabPool × β) Answer := do
  let p ← Act.own
  match ← p.bumpNewest size align with
  | some (mem, p) =>
    Act.setOwn p
    Act.emit (.slabAlloc size align mem.addr)
    return .ok mem
  | none =>
    let capacity := max size p.slabSize
    let slabAlign := max align leastSlabAlign
    match ← Act.below (B.alloc capacity slabAlign) with
    | .error e => return .error e
    | .ok storage =>
      Act.emit (.slabAcquired capacity slabAlign storage.addr)
      match ← (Slab.mk storage 0).bump size align with
      | none =>
        Act.below (B.free storage)
        return .error (.outOfMemory size align)
      | some (mem, slab) =>
        Act.setOwn { p with slabs := slab :: p.slabs }
        Act.emit (.slabAllocInNewSlab size align mem.addr (p.slabs.length + 1))
        return .ok mem

/-- A block on the newest slab, if the request is valid. -/
def alloc (B : Allocator β) : Nat → Nat → Act (SlabPool × β) Answer := allocBy (serve B)

/-- Blocks are not given back one by one. -/
def free (mem : Slice) : Act (SlabPool × β) Unit := Act.emit (.slabFreeIgnored mem.addr)

/-- A block that shrinks and is aligned stays in place; any other is moved, and its old bytes stay
taken. -/
def adjust (B : Allocator β) (mem : Slice) (size align : Nat) : Act (SlabPool × β) Answer :=
  if size ≤ mem.len ∧ mem.addr % align = 0 then return .ok ⟨mem.addr, size⟩
  else relocate (alloc B) free mem size align

/-- Gives back all slabs, the oldest first. -/
def destroy (B : Allocator β) : Act (SlabPool × β) Unit := do
  let p ← Act.own
  Act.setOwn { p with slabs := [] }
  if p.slabs ≠ [] then
    Act.emit (.slabsDestroyed p.slabs.length)
  Act.below (B.freeAll (p.slabs.reverse.map (·.mem)))

/-- The slab pool over the allocator `B`. -/
def allocator (B : Allocator β) : Allocator (SlabPool × β) where
  alloc := alloc B
  resize := resizeBy (alloc B) free (adjust B)
  free := free

end SlabPool
end AllocChain
