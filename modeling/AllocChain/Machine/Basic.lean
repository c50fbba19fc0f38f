import AllocChain.Machine.Event
import AllocChain.Memory.Basic

/-!
The machine is what all allocators share: the memory, the reports made so far, and the calls that
scripted heaps were asked. An action changes the machine and some bookkeeping `β`, or faults. A
fault undoes all changes, but what was reported and asked before it stays known.
-/

namespace AllocChain

/-- A call on an allocator together with its answer; `none` stands for a refusal. -/
inductive Call where
  | alloc (size align : Nat) (answer : Option Slice)
  | resize (block : Slice) (size align : Nat) (answer : Option Slice)
  | free (block : Slice)
  deriving DecidableEq, Repr

/-- The memory, the reports, and the recorded calls with the number of the heap they went to. -/
structure Machine where
  memory : Memory
  events : List Event
  calls : List (Nat × Call)

/-- What is left of a computation that faulted: the fault, and the reports and recorded calls up to
there. -/
structure Breakdown where
  fault : Fault
  events : List Event
  calls : List (Nat × Call)
  deriving DecidableEq, Repr

/-- The machine breaks off with a fault. -/
def Machine.breakOff (m : Machine) (fault : Fault) : Breakdown := ⟨fault, m.events, m.calls⟩

/-- A computation on the bookkeeping `β` and the machine. It ends with a value and a new state, or
it breaks off and leaves none. -/
abbrev Act (β α : Type) := StateT (β × Machine) (Except Breakdown) α

namespace Act

variable {β L α : Type}

/-- A computation that needs neither bookkeeping nor machine. -/
def ofExcept (x : Except Fault α) : Act β α := fun s =>
  match x with
  | .ok a => .ok (a, s)
  | .error fault => .error (s.2.breakOff fault)

instance : MonadLift (Except Fault) (Act β) := ⟨ofExcept⟩

/-- Reports `e`. -/
def emit (e : Event) : Act β Unit :=
  modify fun (b, m) => (b, { m with events := m.events ++ [e] })

/-- Records a call on heap number `heap`. -/
def record (heap : Nat) (call : Call) : Act β Unit :=
  modify fun (b, m) => (b, { m with calls := m.calls ++ [(heap, call)] })

/-- The memory. -/
def memory : Act β Memory := (·.2.memory) <$> get

/-- Changes the memory. -/
def changeMemory (f : Memory → Memory) : Act β Unit :=
  modify fun (b, m) => (b, { m with memory := f m.memory })

/-- The bookkeeping of the upper layer. -/
def own : Act (L × β) L := (·.1.1) <$> get

/-- Replaces the bookkeeping of the upper layer. -/
def setOwn (l : L) : Act (L × β) Unit := modify fun ((_, b), m) => ((l, b), m)

/-- An action of the lower layer; the upper one keeps its bookkeeping. -/
def below (x : Act β α) : Act (L × β) α := fun ((l, b), m) => do
  let (a, (b, m)) ← x (b, m)
  return (a, ((l, b), m))

/-- Runs an action of a layer on its bookkeeping `l`, beside that of the lower layers. -/
def beside (l : L) (x : Act (L × β) α) : Act β (α × L) := fun (b, m) => do
  let (a, ((l, b), m)) ← x ((l, b), m)
  return ((a, l), (b, m))

/-- Runs an action of a layer that has nothing below it. -/
def alone (l : L) (x : Act L α) : Act β (α × L) := fun (b, m) => do
  let (a, (l, m)) ← x (l, m)
  return ((a, l), (b, m))

end Act
end AllocChain
