import AllocChain.Bits.Bitmap
import AllocChain.Memory.Slice

/-!
A bucket is one block of memory cut into slots of equal size, with a bit for each slot that tells
whether it is taken.
-/

namespace AllocChain

/-- Slots of `objSize` bytes from the start of `storage` on; `usedCount` of them are taken. -/
structure Bucket where
  storage : Slice
  objSize : Nat
  slots : Bitmap
  usedCount : Nat
  deriving DecidableEq, Repr

namespace Bucket

/-- A bucket of free slots. -/
def new (storage : Slice) (objSize slotCount : Nat) : Bucket :=
  ⟨storage, objSize, .clear slotCount, 0⟩

/-- Whether all slots are taken. -/
def isFull (b : Bucket) : Bool := b.usedCount == b.slots.length

/-- Where slot `slot` starts. -/
def slotAddr (b : Bucket) (slot : Nat) : Except Fault Nat :=
  (b.storage.addr + ·) <$> Word.mul slot b.objSize

/-- Takes the lowest free slot; the result is its address and the bucket after that. -/
def takeSlot (b : Bucket) : Except Fault (Option (Nat × Bucket)) := do
  let some slot := b.slots.firstClear | return none
  let slots ← (b.slots.set slot).result
  let usedCount ← Word.add b.usedCount 1
  let addr ← b.slotAddr slot
  return some (addr, { b with slots, usedCount })

/-- The bucket with a slot given back. -/
def releaseSlot (b : Bucket) (slot : Nat) : Except Fault Bucket := do
  let slots ← (b.slots.unset slot).result
  let usedCount ← Word.sub b.usedCount 1
  return { b with slots, usedCount }

/-- The taken slot that starts at `addr`, which is not below the storage. -/
def liveSlot (b : Bucket) (addr : Nat) : Except Fault (Option Nat) := do
  let offset ← Word.sub addr b.storage.addr
  if offset % b.objSize ≠ 0 then return none
  let slot := offset / b.objSize
  return if b.slots.get slot then some slot else none

/-- The first bucket whose storage contains `addr`, with its position counted from `index`. -/
def findContaining (addr : Nat) : List Bucket → Nat → Except Fault (Option (Nat × Bucket))
  | [], _ => return none
  | b :: bs, index => do
    if ← b.storage.contains addr then return some (index, b)
    findContaining addr bs (index + 1)

end Bucket
end AllocChain
