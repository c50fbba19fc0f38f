import AllocChain.World.Store

/-!
What can be asked of a world of named allocators and named slots, and what it answers.
-/

namespace AllocChain

/-- How a command names a slice. -/
inductive SliceRef where
  | null
  /-- The slice in a slot. -/
  | slot (name : String)
  /-- The slice at a distance from another one, with its length or a given one. -/
  | shifted (base : SliceRef) (distance : Int) (len : Option Nat)
  /-- A slice at an offset of a numbered stretch of memory. -/
  | inside (region offset len : Nat)
  deriving DecidableEq, Repr

/-- What a new allocator is made of. -/
inductive Recipe where
  | scripted (limit : Nat) (refused : List Nat) (short : Option Nat) (extra skew : Nat)
  /-- Over `size` bytes at `offset` of a new stretch of memory. -/
  | fixed (size offset : Nat)
  /-- Over memory that is there already. -/
  | fixedOver (buffer : SliceRef)
  | arena (chunkSize : Nat)
  | slabs (slabSize : Nat)
  | general (bucketSize : Nat)
  | counting
  | platformHeap
  | pages
  deriving DecidableEq, Repr

/-- What a new allocator is put on. -/
inductive Backing where
  /-- Nothing; it draws from the heap of the platform. -/
  | none
  /-- An allocator that it draws from. -/
  | source (name : String)
  /-- An allocator that it keeps from being dropped, while it draws from the platform's heap. -/
  | companion (name : String)
  deriving DecidableEq, Repr

/-- The ways to ask for a block. -/
inductive Manner where | plain | byLayout | zeroed
  deriving DecidableEq, Repr

/-- A command; `on` is the name of an allocator. -/
inductive Command where
  | create (on : String) (recipe : Recipe) (backing : Backing)
  | alloc (on : String) (size align : Nat) (target : String) (manner : Manner)
  | resize (on : String) (block : SliceRef) (size align : Nat) (target : Option String)
      (manner : Manner)
  | free (on : String) (block : SliceRef)
  /-- Fills the slice in a slot: byte `i` becomes `first + step * i`. -/
  | fill (slot : String) (first step : Nat)
  /-- Reads at most `count` bytes of the slice in a slot. -/
  | read (slot : String) (count : Nat)
  | reset (on : String)
  | destroy (on : String)
  | drop (on : String)
  | sizeClass (on : String) (size align : Nat)
  | bucketCount (on : String) (sizeClass : Nat)
  | contains (outer inner : SliceRef)
  deriving DecidableEq, Repr

/-- The answer to a command. -/
inductive Reply where
  | done
  /-- A block; whether it is aligned as asked, and whether it is where the old block was. -/
  | block (mem : Slice) (aligned kept : Bool)
  | refused (e : AllocError)
  | fault (f : Fault)
  /-- The allocator still has another one standing on it. -/
  | busy
  | filled (count : Nat)
  | bytes (l : List UInt8)
  | sizeClass (c : Option Nat)
  | count (n : Nat)
  /-- Whether the start of the inner slice lies in the outer one, and whether it ends no later. -/
  | within (start stop : Bool)
  /-- No allocator of that name can do what was asked. -/
  | unknown
  deriving DecidableEq, Repr

/-- An answer with all that shows around it: the allocator that was asked and what it was put on,
the calls that heaps got, each with the name of the heap, and the reports that were made. -/
structure Report where
  reply : Reply
  stack : List Member
  calls : List (String × Call)
  events : List Event

/-- What shows when allocators are dropped at the end: the heaps, fixed and counting ones as they
were right before, the calls that heaps got, and the reports that were made. -/
structure Farewell where
  last : List Member
  calls : List (String × Call)
  events : List Event

/-- The name of the allocator that a command is addressed to. -/
def Command.on? : Command → Option String
  | create on .. | alloc on .. | resize on .. | free on _ | reset on | destroy on | drop on
  | sizeClass on .. | bucketCount on _ => some on
  | fill .. | read .. | contains .. => none

end AllocChain
