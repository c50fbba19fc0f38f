import AllocChain.Allocator
import AllocChain.Platform.Basic

/-!
The page allocator takes whole pages from a mapper, which maps and unmaps ranges of addresses.
Every size is rounded up to pages. For an alignment larger than a page it maps more than it needs
and unmaps what lies before and after an aligned window.
-/

namespace AllocChain

/-- Maps `len` bytes at an address of its choice, or refuses; unmaps a range. -/
structure Mapper (β : Type) where
  map (len : Nat) : Act β (Option Nat)
  unmap (addr len : Nat) : Act β Unit

namespace Mapper

variable {β : Type}

/-- Unmaps a range unless it is empty. -/
def trim (M : Mapper β) (addr len : Nat) : Act β Unit :=
  if 0 < len then M.unmap addr len else return ()

end Mapper

namespace Pages

variable {β : Type}

/-- The bytes of a page of the platform. -/
def platformPageSize : Nat := 4096

/-- The whole pages that `len` bytes need, in bytes. -/
def round (pageSize len : Nat) : Except Fault (Option Nat) := Word.alignUp? len pageSize

/-- Serves an alignment larger than a page from the middle of a larger mapping. -/
def serveOverAligned (M : Mapper β) (pageSize len size align : Nat) : Act β Answer := do
  let some total := Word.add? len (align - pageSize) | return .error (.outOfMemory size align)
  match ← M.map total with
  | none => return .error (.outOfMemory size align)
  | some start =>
    match ← Word.alignUp? start align with
    | none => return .error (.outOfMemory size align)
    | some aligned =>
      M.trim start (← Word.sub aligned start)
      let windowEnd ← Word.add aligned len
      M.trim windowEnd (← Word.sub (← Word.add start total) windowEnd)
      Act.emit (.pageAllocOverAligned size align aligned)
      return .ok ⟨aligned, size⟩

/-- Serves a request with whole pages. -/
def serve (M : Mapper β) (pageSize size align : Nat) : Act β Answer := do
  match ← round pageSize size with
  | none => return .error (.outOfMemory size align)
  | some len =>
    if align ≤ pageSize then
      match ← M.map len with
      | none => return .error (.outOfMemory size align)
      | some addr =>
        Act.emit (.pageAlloc size (len / pageSize) addr)
        return .ok ⟨addr, size⟩
    else serveOverAligned M pageSize len size align

/-- Whole pages, if the request is valid. -/
def alloc (M : Mapper β) (pageSize : Nat) : Nat → Nat → Act β Answer := allocBy (serve M pageSize)

/-- Unmaps the pages of a block; a length whose pages cannot be counted is left alone. -/
def free (M : Mapper β) (pageSize : Nat) (mem : Slice) : Act β Unit := do
  if mem.isNull then return ()
  match ← round pageSize mem.len with
  | none => return ()
  | some len =>
    Act.emit (.pageFree mem.addr len)
    M.trim mem.addr len

/-- An aligned block that needs no more pages than it has stays, and the pages that it no longer
needs are unmapped; any other is moved. -/
def adjust (M : Mapper β) (pageSize : Nat) (mem : Slice) (size align : Nat) : Act β Answer := do
  match ← round pageSize mem.len with
  | none => return .error .corruptLength
  | some old =>
    match ← round pageSize size with
    | none => return .error (.outOfMemory size align)
    | some new =>
      if mem.addr % align = 0 ∧ new ≤ old then
        M.trim (← Word.add mem.addr new) (← Word.sub old new)
        Act.emit (.pageResizeInPlace mem.len size mem.addr)
        return .ok ⟨mem.addr, size⟩
      else relocate (alloc M pageSize) (free M pageSize) mem size align

/-- The page allocator over the mapper `M`. -/
def allocator (M : Mapper β) (pageSize : Nat) : Allocator β where
  alloc := alloc M pageSize
  resize := resizeBy (alloc M pageSize) (free M pageSize) (adjust M pageSize)
  free := free M pageSize

/-- The mapper of the platform: a mapping gets fresh addresses, and unmapping leaves no trace. -/
def platformMapper : Mapper Platform where
  map len := modifyGet fun (p, machine) =>
    let (start, p) := p.reserve len platformPageSize
    (start, (p, machine))
  unmap _ _ := return ()

end Pages
end AllocChain
