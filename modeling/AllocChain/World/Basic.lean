import AllocChain.World.Command

/-!
A world of named allocators and named slots over one memory. `World.step` obeys a command; a fault
leaves everything as it was before the command, and only shows what was reported and asked up to
there. `World.finish` drops what is left, the newest allocator first.
-/

namespace AllocChain

/-- The allocators, the slices in the slots, and the sizes of the stretches of memory that heaps
and fixed allocators were made over. -/
structure World where
  store : Store
  slots : List (String × Slice)
  regionSizes : List Nat

/-- Where an address lies. -/
inductive Place where
  | null
  | inside (region offset : Nat)
  | elsewhere
  deriving DecidableEq, Repr

namespace World

variable {α : Type}

/-- A world without allocators. -/
def empty : World := ⟨⟨.fresh, []⟩, [], []⟩

/-- A machine that has not done anything. -/
def idle : Machine := ⟨.zero, [], []⟩

/-- The first address of stretch `region`. -/
def regionBase (region : Nat) : Nat := 2 ^ 40 + region * 2 ^ 32

/-- The stretch of memory that an address lies in, if it is not null. -/
def locate (w : World) (addr : Nat) : Place :=
  let region := (addr - regionBase 0) / 2 ^ 32
  let offset := addr - regionBase region
  if addr = 0 then .null
  else if regionBase 0 ≤ addr ∧ w.regionSizes[region]?.any (offset < ·) then .inside region offset
  else .elsewhere

/-- The slice in a slot; a slot that was never set holds the null slice. -/
def slot (w : World) (name : String) : Slice := (w.slots.lookup name).getD .null

/-- Puts a slice into a slot. -/
def setSlot (w : World) (name : String) (mem : Slice) : World :=
  { w with slots := (name, mem) :: w.slots.filter (·.1 != name) }

/-- The slice that a reference names; distances wrap round. -/
def resolve (w : World) : SliceRef → Slice
  | .null => .null
  | .slot name => w.slot name
  | .shifted base distance len =>
    let mem := w.resolve base
    ⟨((mem.addr + distance) % wordLimit).toNat, len.getD mem.len⟩
  | .inside region offset len => ⟨(regionBase region + offset) % wordLimit, len⟩

/-- An action on the allocators. -/
def onStore (x : Act Store α) : Act World α := fun (w, m) => do
  let (a, (store, m)) ← x (w.store, m)
  return (a, ({ w with store }, m))

/-- Changes the world. -/
def change (f : World → World) : Act World Unit := modify fun (w, m) => (f w, m)

/-- The layer that a recipe gives, and the size of the stretch of memory that it takes. -/
def prepare (w : World) : Recipe → Except AllocError (Layer × Option Nat)
  | .scripted limit refused short extra skew =>
    let number := w.store.members.length
    let base := regionBase w.regionSizes.length
    return (.scripted ⟨number, base, limit, refused, short, extra, skew, 0, 0, 0, 0⟩, limit)
  | .fixed size offset =>
    return (.fixed ⟨regionBase w.regionSizes.length + offset, size, 0⟩, some (offset + size))
  | .fixedOver buffer => return (.fixed (← Fixed.ofSlice (w.resolve buffer)), none)
  | .arena chunkSize => return (.arena (.new chunkSize), none)
  | .slabs slabSize => return (.slabs (.new slabSize), none)
  | .general bucketSize => return (.general (.new bucketSize), none)
  | .counting => return (.counting .zero, none)
  | .platformHeap => return (.platformHeap, none)
  | .pages => return (.pages, none)

/-- The numbers of the members that a new one on `backing` draws from. -/
def sources (w : World) : Backing → List Nat
  | .source name => ((w.store.find? name).map w.store.chain).getD []
  | .none | .companion _ => []

/-- The numbers of the members that a new one on `backing` is put on. -/
def ground (w : World) : Backing → List Nat
  | .source name | .companion name => ((w.store.find? name).map w.store.stack).getD []
  | .none => []

/-- Makes a new allocator. -/
def create (name : String) (recipe : Recipe) (backing : Backing) : Act World Reply := do
  let (w, _) ← get
  match w.prepare recipe with
  | .error e => return .refused e
  | .ok (layer, size) =>
    let member := ⟨name, layer, w.sources backing, w.ground backing, false⟩
    change fun w => { w with
      store := { w.store with members := w.store.members ++ [member] }
      regionSizes := w.regionSizes ++ size.toList }
    return .done

/-- Puts the block of an answer into a slot, if there is one to put it into. -/
def settle (answer : Answer) (align : Nat) (old : Option Slice) (target : Option String) :
    Act World Reply := do
  match answer with
  | .error e => return .refused e
  | .ok mem =>
    if let some name := target then change (·.setSlot name mem)
    return .block mem (mem.addr % normalizeAlign align == 0) (old.any (·.addr == mem.addr))

/-- The slot that a resized block goes to: the one that is named, or else the one it came from. -/
def slotOf (target : Option String) (block : SliceRef) : Option String :=
  match target, block with
  | some name, _ => some name
  | none, .slot name => some name
  | none, _ => none

/-- Does something to the allocator of that name. -/
def withMember (on : String) (f : Nat → Act World Reply) : Act World Reply := do
  let (w, _) ← get
  match w.store.find? on with
  | none => return .unknown
  | some i => f i

/-- Does something to an allocator that no other one may have been put on. -/
def withIdleMember (on : String) (x : Nat → Act Store Unit) : Act World Reply :=
  withMember on fun i => do
    let (w, _) ← get
    if w.store.carries i then return .busy
    onStore (x i)
    return .done

/-- Asks a general-purpose allocator about its bookkeeping. -/
def withGeneral (on : String) (f : GeneralPurpose → Except Fault Reply) : Act World Reply :=
  withMember on fun i => do
    let (w, _) ← get
    match w.store.members[i]? with
    | some { layer := .general g, .. } => f g
    | _ => return .unknown

/-- Obeys a command. -/
def perform : Command → Act World Reply
  | .create on recipe backing => create on recipe backing
  | .alloc on size align target manner => withMember on fun i => do
    let (w, _) ← get
    let A := Store.allocator (w.store.chain i)
    let answer ← onStore <| match manner with
      | .plain => A.alloc size align
      | .byLayout => A.allocLayout ⟨size, align⟩
      | .zeroed => A.allocZeroed size align
    settle answer align none (some target)
  | .resize on block size align target manner => withMember on fun i => do
    let (w, _) ← get
    let A := Store.allocator (w.store.chain i)
    let mem := w.resolve block
    let answer ← onStore <| match manner with
      | .byLayout => A.resizeLayout mem ⟨size, align⟩
      | _ => A.resize mem size align
    settle answer align (some mem) (slotOf target block)
  | .free on block => withMember on fun i => do
    let (w, _) ← get
    onStore ((Store.allocator (w.store.chain i)).free (w.resolve block))
    return .done
  | .fill name first step => do
    let (w, _) ← get
    let mem := w.slot name
    Act.changeMemory (·.write mem.addr mem.len fun i => UInt8.ofNat (first + step * i))
    return .filled mem.len
  | .read name count => do
    let (w, machine) ← get
    let mem := w.slot name
    return .bytes ((List.range (min count mem.len)).map fun i => machine.memory.byte (mem.addr + i))
  | .reset on => withIdleMember on Store.reset
  | .destroy on => withIdleMember on Store.destroy
  | .drop on => withIdleMember on Store.drop
  | .sizeClass on size align => withGeneral on fun g => .sizeClass <$> g.sizeClass size align
  | .bucketCount on sizeClass => withGeneral on fun g => .ok (.count (g.bucketCount sizeClass))
  | .contains outer inner => do
    let (w, _) ← get
    let outer := w.resolve outer
    let inner := w.resolve inner
    let start ← outer.contains inner.addr
    let innerStop ← inner.stop
    let outerStop ← outer.stop
    return .within start (innerStop ≤ outerStop)

/-- The calls of the heaps under the names of the heaps. -/
def named (w : World) (calls : List (Nat × Call)) : List (String × Call) :=
  calls.map fun (number, call) => ((w.store.members[number]?.map (·.name)).getD "", call)

/-- The allocator that a command is addressed to and what it was put on, as they are now. -/
def stackOf (w : World) (c : Command) : List Member :=
  match c.on?.bind w.store.find? with
  | none => []
  | some i => w.store.pick (w.store.stack i)

/-- Obeys a command and reports. After a fault all is as it was before. -/
def step (w : World) (memory : Memory) (c : Command) : Report × World × Memory :=
  match perform c (w, { idle with memory }) with
  | .error b => (⟨.fault b.fault, w.stackOf c, w.named b.calls, b.events⟩, w, memory)
  | .ok (reply, (w, machine)) =>
    (⟨reply, w.stackOf c, w.named machine.calls, machine.events⟩, w, machine.memory)

/-- Whether the bookkeeping of a layer is shown when it is dropped at the end. -/
def isShownAtEnd : Layer → Bool
  | .scripted _ | .fixed _ | .counting _ => true
  | _ => false

/-- Drops a member, as far as that has not happened yet. One whose drop faults is left behind. -/
def dismiss (w : World) (memory : Memory) (i : Nat) : Farewell × World × Memory :=
  let alive := (w.store.pick [i]).filter (!·.dropped)
  let last := alive.filter (isShownAtEnd ·.layer)
  if alive.isEmpty then (⟨[], [], []⟩, w, memory)
  else match onStore (Store.drop i) (w, { idle with memory }) with
    | .error b => (⟨last, w.named b.calls, b.events⟩, w, memory)
    | .ok (_, (w, machine)) =>
      (⟨last, w.named machine.calls, machine.events⟩, w, machine.memory)

/-- Drops the members of those numbers one after the other. -/
def dismissAll (w : World) (memory : Memory) : List Nat → Farewell
  | [] => ⟨[], [], []⟩
  | i :: rest =>
    let (first, w, memory) := w.dismiss memory i
    let others := w.dismissAll memory rest
    ⟨first.last ++ others.last, first.calls ++ others.calls, first.events ++ others.events⟩

/-- Drops all allocators that are left, the newest first. -/
def finish (w : World) (memory : Memory) : Farewell :=
  w.dismissAll memory (List.range w.store.members.length).reverse

end World
end AllocChain
