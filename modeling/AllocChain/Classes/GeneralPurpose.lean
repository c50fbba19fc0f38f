import AllocChain.Allocator
import AllocChain.Bits.BitSet
import AllocChain.Classes.Bucket

/-!
The general-purpose allocator. A request is rounded up to a power of two that is at least its size
and its alignment. If that object size is no larger than a bucket, the request gets a slot of the
first bucket of its size class that has room; otherwise it goes to the allocator behind, and the
block is kept in the list of large ones.

Blocks are recognised by their address alone: a small one by the bucket that contains it, a large
one by where it starts. What is not recognised is not freed.
-/

namespace AllocChain

/-- The number of size classes; class `c` has objects of `2 ^ c` bytes. -/
def classCount : Nat := 16

/-- The size of the largest bucket, which is the object size of the last class. -/
def maxBucketSize : Nat := 2 ^ (classCount - 1)

/-- The size of a bucket if no other is asked for. -/
def defaultBucketSize : Nat := 4096

/-- The buckets of each class in the order of their creation, the set of the classes that have
one, and the large blocks. -/
structure GeneralPurpose where
  bucketSize : Nat
  classes : Vector (List Bucket) classCount
  occupied : BitSet 1
  large : List Slice
  deriving DecidableEq, Repr

/-- What an address belongs to. -/
inductive Owner where
  | slot (sizeClass bucket slot : Nat)
  | large (index : Nat)
  deriving DecidableEq, Repr

/-- The list without the element at `index`; the last one takes its place. -/
def swapRemove {α : Type} (l : List α) (index : Nat) : List α :=
  match l.getLast? with
  | none => []
  | some last => if index + 1 = l.length then l.dropLast else l.dropLast.set index last

/-- The element at `index`, or a fault. -/
def elementAt {α : Type} (l : List α) (index : Nat) : Except Fault α :=
  match l[index]? with
  | some a => .ok a
  | none => .error (.indexOutOfBounds l.length index)

namespace GeneralPurpose

variable {β : Type}

/-- An allocator without blocks. The bucket size is rounded up to a power of two and capped; size
zero stands for the default. -/
def new (bucketSize : Nat) : GeneralPurpose where
  bucketSize :=
    let wanted := if bucketSize = 0 then defaultBucketSize else bucketSize
    min ((Word.nextPowerOfTwo? wanted).getD maxBucketSize) maxBucketSize
  classes := Vector.replicate classCount []
  occupied := .empty
  large := []

/-- The class that serves a request, or `none` if it is a large one. -/
def sizeClass (g : GeneralPurpose) (size align : Nat) : Except Fault (Option Nat) := do
  let some objSize := Word.nextPowerOfTwo? (max size align) | return none
  if g.bucketSize < objSize then return none
  let sizeClass ← Word.log2 objSize
  return if sizeClass < classCount then some sizeClass else none

/-- How many buckets a class has; there are none beyond the last class. -/
def bucketCount (g : GeneralPurpose) (sizeClass : Nat) : Nat :=
  (g.classes.toList.getD sizeClass []).length

/-- The buckets of a class, the oldest first. -/
def bucketsOf (g : GeneralPurpose) (sizeClass : Nat) : Except Fault (List Bucket) :=
  if h : sizeClass < classCount then .ok g.classes[sizeClass]
  else .error (.indexOutOfBounds classCount sizeClass)

/-- Replaces the buckets of a class. -/
def setBuckets (g : GeneralPurpose) (sizeClass : Nat) (buckets : List Bucket) : GeneralPurpose :=
  { g with classes := g.classes.setIfInBounds sizeClass buckets }

/-- The position of a bucket of the class with room, which is made if there is none. -/
def bucketWithRoom (B : Allocator β) (sizeClass : Nat) :
    Act (GeneralPurpose × β) (Except AllocError Nat) := do
  let g ← Act.own
  let buckets ← g.bucketsOf sizeClass
  match buckets.findIdx? (!·.isFull) with
  | some index => return .ok index
  | none =>
    let objSize := 2 ^ sizeClass
    let slotCount := g.bucketSize / objSize
    let storageSize ← Word.mul slotCount objSize
    match ← Act.below (B.alloc storageSize objSize) with
    | .error e => return .error e
    | .ok storage =>
      Act.emit (.bucketCreated objSize slotCount storage.addr)
      let occupied ← (g.occupied.insert sizeClass).result
      let g := g.setBuckets sizeClass (buckets ++ [.new storage objSize slotCount])
      Act.setOwn { g with occupied }
      return .ok buckets.length

/-- Serves a request from a slot of the class. -/
def allocSmall (B : Allocator β) (sizeClass size : Nat) : Act (GeneralPurpose × β) Answer := do
  match ← bucketWithRoom B sizeClass with
  | .error e => return .error e
  | .ok index =>
    let g ← Act.own
    let buckets ← g.bucketsOf sizeClass
    let bucket ← elementAt buckets index
    match ← bucket.takeSlot with
    | none => return .error (.outOfMemory size (2 ^ sizeClass))
    | some (addr, bucket) =>
      Act.setOwn (g.setBuckets sizeClass (buckets.set index bucket))
      Act.emit (.smallAlloc size sizeClass addr)
      return .ok ⟨addr, size⟩

/-- Passes a request on and keeps the block in the list of large ones. -/
def allocLarge (B : Allocator β) (size align : Nat) : Act (GeneralPurpose × β) Answer := do
  match ← Act.below (B.alloc size align) with
  | .error e => return .error e
  | .ok mem =>
    let g ← Act.own
    Act.setOwn { g with large := g.large ++ [mem] }
    Act.emit (.largeAlloc size align mem.addr)
    return .ok mem

/-- Serves a request by its size class. -/
def serve (B : Allocator β) (size align : Nat) : Act (GeneralPurpose × β) Answer := do
  let g ← Act.own
  match ← g.sizeClass size align with
  | some sizeClass => allocSmall B sizeClass size
  | none => allocLarge B size align

/-- A slot or a large block, if the request is valid. -/
def alloc (B : Allocator β) : Nat → Nat → Act (GeneralPurpose × β) Answer := allocBy (serve B)

/-- The first bucket that contains `addr`, going through the classes in the order given. -/
def findBucket (g : GeneralPurpose) (addr : Nat) :
    List Nat → Except Fault (Option (Nat × Nat × Bucket))
  | [] => return none
  | sizeClass :: rest => do
    match ← Bucket.findContaining addr (← g.bucketsOf sizeClass) 0 with
    | some (index, bucket) => return some (sizeClass, index, bucket)
    | none => findBucket g addr rest

/-- The slot or the large block at `addr`. An address inside a bucket that is not the start of a
taken slot belongs to nothing. -/
def owner (g : GeneralPurpose) (addr : Nat) : Except Fault (Option Owner) := do
  match ← g.findBucket addr g.occupied.ones with
  | some (sizeClass, index, bucket) =>
    return (← bucket.liveSlot addr).map (.slot sizeClass index)
  | none => return (g.large.findIdx? (·.addr == addr)).map .large

/-- Gives back a slot, and its bucket if that was the last taken slot of it. -/
def releaseSlot (B : Allocator β) (sizeClass index slot : Nat) :
    Act (GeneralPurpose × β) Unit := do
  let g ← Act.own
  let buckets ← g.bucketsOf sizeClass
  let bucket ← (← elementAt buckets index).releaseSlot slot
  Act.emit (.smallFree sizeClass slot)
  if bucket.usedCount = 0 then
    let buckets := buckets.eraseIdx index
    let occupied ←
      if buckets = [] then (g.occupied.erase sizeClass).result else pure g.occupied
    Act.setOwn { g.setBuckets sizeClass buckets with occupied }
    Act.emit (.bucketReleased bucket.objSize bucket.storage.addr)
    Act.below (B.free bucket.storage)
  else
    Act.setOwn (g.setBuckets sizeClass (buckets.set index bucket))

/-- Gives back a large block, with the length that was recorded for it. -/
def releaseLarge (B : Allocator β) (index : Nat) : Act (GeneralPurpose × β) Unit := do
  let g ← Act.own
  let mem ← elementAt g.large index
  Act.setOwn { g with large := swapRemove g.large index }
  Act.emit (.largeFree mem.addr mem.len)
  Act.below (B.free mem)

/-- Gives back what starts at the address of `mem`; anything else is left alone. -/
def free (B : Allocator β) (mem : Slice) : Act (GeneralPurpose × β) Unit := do
  if mem.isNull then return ()
  let g ← Act.own
  match ← g.owner mem.addr with
  | some (.slot sizeClass index slot) => releaseSlot B sizeClass index slot
  | some (.large index) => releaseLarge B index
  | none => Act.emit (.freeUnrecognised mem.addr)

/-- Resizes a large block behind, with the length that was recorded for it. -/
def resizeLarge (B : Allocator β) (index size align : Nat) : Act (GeneralPurpose × β) Answer := do
  let g ← Act.own
  let current ← elementAt g.large index
  match ← Act.below (B.resize current size align) with
  | .error e => return .error e
  | .ok resized =>
    Act.setOwn { g with large := g.large.set index resized }
    Act.emit (.largeResize current.len size resized.addr)
    return .ok resized

/-- A small block stays in its slot as long as its class does not change and is moved otherwise; a
large block is resized behind. -/
def adjust (B : Allocator β) (mem : Slice) (size align : Nat) :
    Act (GeneralPurpose × β) Answer := do
  let g ← Act.own
  match ← g.owner mem.addr with
  | some (.slot sizeClass _ _) =>
    if (← g.sizeClass size align) = some sizeClass then
      Act.emit (.resizeWithinClass mem.len size sizeClass)
      return .ok ⟨mem.addr, size⟩
    else relocate (alloc B) (free B) mem size align
  | some (.large index) => resizeLarge B index size align
  | none => return .error .notOwned

/-- Gives back all buckets, class after class, and then all large blocks. -/
def destroy (B : Allocator β) : Act (GeneralPurpose × β) Unit := do
  let g ← Act.own
  let buckets := g.classes.toList.flatten
  Act.setOwn { g with classes := Vector.replicate classCount [], occupied := .empty, large := [] }
  Act.below (B.freeAll (buckets.map (·.storage)))
  Act.below (B.freeAll g.large)
  if buckets.length + g.large.length > 0 then
    Act.emit (.classesDestroyed buckets.length g.large.length)

/-- The general-purpose allocator over the allocator `B`. -/
def allocator (B : Allocator β) : Allocator (GeneralPurpose × β) where
  alloc := alloc B
  resize := resizeBy (alloc B) (free B) (adjust B)
  free := free B

end GeneralPurpose
end AllocChain
