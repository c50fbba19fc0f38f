import AllocChain.Memory.Slice

/-!
The memory of the platform, from which allocators without anything behind them draw. Every request
gets addresses that were never handed out before; a request for an enormous number of bytes, or for
an enormous alignment, is refused. The platform keeps a record of the blocks of its heap, so that
the heap knows how long a block is without being told.
-/

namespace AllocChain

/-- The first address of the platform that has not been handed out, and the blocks of the heap. -/
structure Platform where
  next : Nat
  blocks : List Slice
  deriving DecidableEq, Repr

namespace Platform

/-- Sizes and alignments from here on are refused. -/
def enormous : Nat := 2 ^ 62

/-- No address from here on is handed out. -/
def limit : Nat := 2 ^ 63

/-- Nothing handed out yet. -/
def fresh : Platform := ⟨2 ^ 56, []⟩

/-- Reserves `size` bytes at a multiple of `align`. -/
def reserve (p : Platform) (size align : Nat) : Option Nat × Platform :=
  let start := (p.next + align - 1) / align * align
  if enormous ≤ size ∨ enormous ≤ align ∨ limit < start + size then (none, p)
  else (some start, { p with next := start + size })

/-- Strikes the block at `addr` from the record. -/
def forget (p : Platform) (addr : Nat) : Platform :=
  { p with blocks := p.blocks.filter (·.addr != addr) }

/-- Records a block, in place of one that was at its address. -/
def hold (p : Platform) (block : Slice) : Platform :=
  { p with blocks := block :: (p.forget block.addr).blocks }

/-- The recorded length of the block at `addr`, zero if there is none. -/
def lengthAt (p : Platform) (addr : Nat) : Nat :=
  ((p.blocks.find? (·.addr == addr)).map (·.len)).getD 0

end Platform
end AllocChain
