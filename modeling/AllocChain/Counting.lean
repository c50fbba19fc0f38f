import AllocChain.Allocator

/-!
The counting allocator passes every call on and keeps count of what flows through it. A free that
the allocator behind ignores is counted all the same; a free of a null block is not passed on.
-/

namespace AllocChain

/-- How many blocks were handed out and given back, how many are out, and their bytes. -/
structure Counters where
  allocs : Nat
  frees : Nat
  live : Nat
  liveBytes : Nat
  deriving DecidableEq, Repr

namespace Counters

variable {β : Type}

/-- Nothing counted yet. -/
def zero : Counters := ⟨0, 0, 0, 0⟩

/-- The counters after `mem` was handed out. -/
def recordAlloc (c : Counters) (mem : Slice) : Except Fault Counters := do
  let allocs ← Word.add c.allocs 1
  let live ← Word.add c.live 1
  let liveBytes ← Word.add c.liveBytes mem.len
  return { c with allocs, live, liveBytes }

/-- The counters after `mem` was given back; what is out never drops below zero. -/
def recordFree (c : Counters) (mem : Slice) : Except Fault Counters := do
  let frees ← Word.add c.frees 1
  return { c with frees, live := c.live - 1, liveBytes := c.liveBytes - mem.len }

/-- The counters after `old` bytes became `new` bytes. -/
def recordResize (c : Counters) (old new : Nat) : Except Fault Counters := do
  let liveBytes ← Word.add (c.liveBytes - old) new
  return { c with liveBytes }

/-- Counts a block when it was really handed out. -/
def alloc (B : Allocator β) (size align : Nat) : Act (Counters × β) Answer := do
  match ← Act.below (B.alloc size align) with
  | .error e => return .error e
  | .ok mem =>
    Act.setOwn (← (← Act.own).recordAlloc mem)
    return .ok mem

/-- Counts a block as given back once the allocator behind has had it. -/
def free (B : Allocator β) (mem : Slice) : Act (Counters × β) Unit := do
  if mem.isNull then return ()
  Act.below (B.free mem)
  Act.setOwn (← (← Act.own).recordFree mem)

/-- A resize counts as what it amounts to: an allocation if the block was null, a free if the new
size is zero, and a change of length otherwise. -/
def resize (B : Allocator β) (mem : Slice) (size align : Nat) : Act (Counters × β) Answer := do
  match ← Act.below (B.resize mem size align) with
  | .error e => return .error e
  | .ok resized =>
    let c ← Act.own
    Act.setOwn (← if mem.isNull then c.recordAlloc resized
      else if size = 0 then c.recordFree mem
      else c.recordResize mem.len resized.len)
    return .ok resized

/-- The counting allocator over the allocator `B`. -/
def allocator (B : Allocator β) : Allocator (Counters × β) where
  alloc := alloc B
  resize := resize B
  free := free B

end Counters
end AllocChain
