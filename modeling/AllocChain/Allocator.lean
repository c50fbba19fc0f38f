import AllocChain.Machine.Basic
import AllocChain.Request.Layout

/-!
The interface of an allocator over bookkeeping `β`: `alloc`, `resize` and `free`. Everything that
hands out memory has these three, so one allocator can stand on any other. The requests that can
be answered the same way everywhere are answered here: `resizeBy` sorts out null blocks, zero sizes
and bad alignments, and `relocate` moves a block by allocating, copying and freeing.
-/

namespace AllocChain

/-- The answer to a request: a block, or the reason for refusing it. -/
abbrev Answer := Except AllocError Slice

/-- The three operations of an allocator. -/
structure Allocator (β : Type) where
  /-- A block of `size` bytes aligned to `align`. -/
  alloc (size align : Nat) : Act β Answer
  /-- The block with `size` bytes, perhaps at another place. -/
  resize (block : Slice) (size align : Nat) : Act β Answer
  /-- Takes a block back. -/
  free (block : Slice) : Act β Unit

variable {β γ : Type}

/-- Answers a request with a valid layout by `serve`, which gets the normalized alignment. -/
def allocBy (serve : Nat → Nat → Act β Answer) (size align : Nat) : Act β Answer :=
  match checkRequest size align with
  | .error e => return .error e
  | .ok align => serve size align

/-- A null block is allocated and a zero size frees; after that the layout has to be valid, and
`adjust` gets the normalized alignment. -/
def resizeBy (alloc : Nat → Nat → Act β Answer) (free : Slice → Act β Unit)
    (adjust : Slice → Nat → Nat → Act β Answer) (block : Slice) (size align : Nat) : Act β Answer :=
  if block.isNull then alloc size align
  else if size = 0 then do
    free block
    return .ok .null
  else match checkRequest size align with
    | .error e => return .error e
    | .ok align => adjust block size align

/-- A new block gets the bytes that both have room for, and the old one is freed. If no new block
can be had, the old one stays. Nobody checks the length of the old block: if the bytes it names
reach into those that are written, the copy faults. -/
def relocate (alloc : Nat → Nat → Act β Answer) (free : Slice → Act β Unit)
    (block : Slice) (size align : Nat) : Act β Answer := do
  match ← alloc size align with
  | .error e => return .error e
  | .ok fresh =>
    block.checkCopy fresh
    Act.changeMemory (·.copyCommon block fresh)
    free block
    return .ok fresh

namespace Allocator

/-- A block of the given layout. -/
def allocLayout (A : Allocator β) (l : Layout) : Act β Answer := A.alloc l.size l.align

/-- The block with the given layout. -/
def resizeLayout (A : Allocator β) (block : Slice) (l : Layout) : Act β Answer :=
  A.resize block l.size l.align

/-- A block all of whose bytes are zero. -/
def allocZeroed (A : Allocator β) (size align : Nat) : Act β Answer := do
  match ← A.alloc size align with
  | .error e => return .error e
  | .ok block =>
    Act.changeMemory (·.write block.addr block.len fun _ => 0)
    return .ok block

/-- Frees the blocks one after the other. -/
def freeAll (A : Allocator β) : List Slice → Act β Unit
  | [] => return ()
  | block :: blocks => do
    A.free block
    A.freeAll blocks

/-- The same allocator seen from richer bookkeeping, given how to run its actions there. -/
def lift (run : ∀ {α : Type}, Act β α → Act γ α) (A : Allocator β) : Allocator γ where
  alloc size align := run (A.alloc size align)
  resize block size align := run (A.resize block size align)
  free block := run (A.free block)

end Allocator
end AllocChain
