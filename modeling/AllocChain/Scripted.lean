import AllocChain.Allocator

/-!
A scripted heap stands at the bottom of a chain and can be told to misbehave: to refuse the calls
with given numbers, to hand out blocks that are too short or too long, or to misplace them. It
never reuses memory, checks nothing that is given back, and records all calls that it gets.
-/

namespace AllocChain

/-- A heap of `limit` bytes at `base`, of which the first `next` have been handed out. -/
structure ScriptedHeap where
  /-- The number under which its calls are recorded. -/
  number : Nat
  base : Nat
  limit : Nat
  /-- The numbers of the requests that are refused, counted from zero. -/
  refused : List Nat
  /-- No block is longer than this. -/
  short : Option Nat
  /-- How many bytes each block gets beyond those asked for. -/
  extra : Nat
  /-- How far each block lies behind an aligned address. -/
  skew : Nat
  next : Nat
  requests : Nat
  allocs : Nat
  frees : Nat
  deriving DecidableEq, Repr

namespace ScriptedHeap

/-- The next block, cut from the unused end. A zero size or a bad alignment is refused, but every
request counts. -/
def carve (h : ScriptedHeap) (size align : Nat) : Answer × ScriptedHeap :=
  let request := h.requests
  let h := { h with requests := request + 1 }
  let unit := normalizeAlign align
  if size = 0 ∨ Word.isPowerOfTwo unit = false then (.error (.invalidLayout size align), h)
  else
    let start := (h.base + h.next + unit - 1) / unit * unit + h.skew
    let stop := start + size + h.extra
    if request ∈ h.refused ∨ h.base + h.limit < stop then (.error (.outOfMemory size align), h)
    else
      let length := match h.short with
        | none => size + h.extra
        | some short => min (size + h.extra) short
      (.ok ⟨start, length⟩, { h with next := stop - h.base })

/-- The answer of `carve` as an action. -/
def cut (size align : Nat) : Act ScriptedHeap Answer :=
  modifyGet fun (h, machine) =>
    let (answer, h) := h.carve size align
    (answer, (h, machine))

/-- Records a call of the heap. -/
def log (call : Call) : Act ScriptedHeap Unit := do
  let (h, _) ← get
  Act.record h.number call

/-- A block from the unused end. -/
def alloc (size align : Nat) : Act ScriptedHeap Answer := do
  let answer ← cut size align
  log (.alloc size align answer.toOption)
  if answer.toOption.isSome then
    modify fun (h, machine) => ({ h with allocs := h.allocs + 1 }, machine)
  return answer

/-- Counts and records, and does nothing else. -/
def free (mem : Slice) : Act ScriptedHeap Unit := do
  modify fun (h, machine) => ({ h with frees := h.frees + 1 }, machine)
  log (.free mem)

/-- A block that shrinks and is aligned stays in place; any other is copied to a new one, and the
old one is not counted as given back. -/
def resize (mem : Slice) (size align : Nat) : Act ScriptedHeap Answer := do
  if mem.isNull then alloc size align
  else if size = 0 then
    free mem
    return .ok .null
  else if size ≤ mem.len ∧ mem.addr % normalizeAlign align = 0 then
    log (.resize mem size align (some ⟨mem.addr, size⟩))
    return .ok ⟨mem.addr, size⟩
  else
    let answer ← cut size align
    log (.resize mem size align answer.toOption)
    match answer with
    | .error e => return .error e
    | .ok fresh =>
      Act.changeMemory (·.copyCommon mem fresh)
      return .ok fresh

/-- The scripted heap. -/
def allocator : Allocator ScriptedHeap where
  alloc := alloc
  resize := resize
  free := free

end ScriptedHeap
end AllocChain
