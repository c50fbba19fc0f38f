import AllocChain.Bump.Arena
import AllocChain.Bump.Fixed
import AllocChain.Bump.Slab
import AllocChain.Classes.GeneralPurpose
import AllocChain.Counting
import AllocChain.Platform.Heap
import AllocChain.Platform.Pages
import AllocChain.Scripted

/-!
Allocators of all kinds side by side, each with a name and drawing from another one or from the
heap of the platform. Two may draw from the same one. The operations of a member are those of its
layer over the operations of the member below it, so a call travels down the whole chain.
-/

namespace AllocChain

/-- The bookkeeping of one allocator of any kind. -/
inductive Layer where
  | scripted (h : ScriptedHeap)
  | fixed (r : Region)
  | arena (a : Arena)
  | slabs (p : SlabPool)
  | general (g : GeneralPurpose)
  | counting (c : Counters)
  | platformHeap
  | pages

/-- A named allocator. -/
structure Member where
  name : String
  layer : Layer
  /-- The numbers of the members that it draws from, the nearest first. -/
  below : List Nat
  /-- The numbers of the members that it was put on, the nearest first, whether it draws from them
  or not. -/
  ground : List Nat
  /-- A member that was dropped keeps its number but cannot be found any more. -/
  dropped : Bool

/-- The platform, and all members in the order of their creation. -/
structure Store where
  platform : Platform
  members : List Member

namespace Store

variable {α : Type}

/-- An action on the platform. -/
def onPlatform (x : Act Platform α) : Act Store α := fun (s, m) => do
  let (a, (platform, m)) ← x (s.platform, m)
  return (a, ({ s with platform }, m))

/-- The heap of the platform. -/
def platformHeap : Allocator Store := PlatformHeap.allocator.lift onPlatform

/-- The pages of the platform. -/
def platformPages : Allocator Store :=
  (Pages.allocator Pages.platformMapper Pages.platformPageSize).lift onPlatform

end Store

namespace Layer

variable {α : Type}

/-- Uses the allocator of a layer that stands on `B`; the layer's new bookkeeping comes with the
result. -/
def run (B : Allocator Store) (use : ∀ {β : Type}, Allocator β → Act β α) :
    Layer → Act Store (α × Layer)
  | scripted h => Prod.map id scripted <$> Act.alone h (use ScriptedHeap.allocator)
  | fixed r => Prod.map id fixed <$> Act.alone r (use Fixed.allocator)
  | arena a => Prod.map id arena <$> Act.beside a (use (Arena.allocator B))
  | slabs p => Prod.map id slabs <$> Act.beside p (use (SlabPool.allocator B))
  | general g => Prod.map id general <$> Act.beside g (use (GeneralPurpose.allocator B))
  | counting c => Prod.map id counting <$> Act.beside c (use (Counters.allocator B))
  | platformHeap => (·, platformHeap) <$> use Store.platformHeap
  | pages => (·, pages) <$> use Store.platformPages

/-- The layer with all blocks forgotten; only fixed allocators and arenas can do that. -/
def reset (B : Allocator Store) : Layer → Act Store Layer
  | fixed r => return fixed r.reset
  | arena a => (fun x => arena x.2) <$> Act.beside a (Arena.reset B)
  | layer => return layer

/-- The layer after it has given back all that it holds; bottom layers and counters hold nothing. -/
def destroy (B : Allocator Store) : Layer → Act Store Layer
  | arena a => (fun x => arena x.2) <$> Act.beside a (Arena.destroy B)
  | slabs p => (fun x => slabs x.2) <$> Act.beside p (SlabPool.destroy B)
  | general g => (fun x => general x.2) <$> Act.beside g (GeneralPurpose.destroy B)
  | layer => return layer

end Layer

namespace Store

variable {α : Type}

/-- Replaces the layer of member `i`. -/
def setLayer (s : Store) (i : Nat) (layer : Layer) : Store :=
  { s with members := s.members.modify i ({ · with layer }) }

/-- Lets `f` work on the layer of member `i`; the answer is `absent` if there is no such member. -/
def visit (i : Nat) (absent : α) (f : Layer → Act Store (α × Layer)) : Act Store α := do
  let (s, _) ← get
  match s.members[i]? with
  | none => return absent
  | some member =>
    let (a, layer) ← f member.layer
    modify fun (s, machine) => (s.setLayer i layer, machine)
    return a

/-- The allocator at the head of a chain of members; under the last one lies the heap of the
platform. -/
def allocator : List Nat → Allocator Store
  | [] => platformHeap
  | i :: below => {
      alloc size align :=
        visit i (.error (.outOfMemory size align)) (·.run (allocator below) (·.alloc size align))
      resize block size align :=
        visit i (.error (.outOfMemory size align))
          (·.run (allocator below) (·.resize block size align))
      free block := visit i () (·.run (allocator below) (·.free block)) }

/-- The number of the newest member of that name which was not dropped. -/
def find? (s : Store) (name : String) : Option Nat :=
  (List.range s.members.length).reverse.find? fun i =>
    s.members[i]?.any fun member => member.name == name && !member.dropped

/-- The members whose numbers are listed. -/
def pick (s : Store) (numbers : List Nat) : List Member := numbers.filterMap (s.members[·]?)

/-- The chain of member `i`: itself and what it draws from. -/
def chain (s : Store) (i : Nat) : List Nat := i :: (s.members[i]?.map (·.below)).getD []

/-- The stack of member `i`: itself and what it was put on. -/
def stack (s : Store) (i : Nat) : List Nat := i :: (s.members[i]?.map (·.ground)).getD []

/-- Whether some member that was not dropped was put directly on member `i`. -/
def carries (s : Store) (i : Nat) : Bool :=
  s.members.any fun member => !member.dropped && member.ground.head? == some i

/-- Resets member `i`. -/
def reset (i : Nat) : Act Store Unit := do
  let (s, _) ← get
  visit i () fun layer => ((), ·) <$> layer.reset (allocator (s.chain i).tail)

/-- Destroys member `i`. -/
def destroy (i : Nat) : Act Store Unit := do
  let (s, _) ← get
  visit i () fun layer => ((), ·) <$> layer.destroy (allocator (s.chain i).tail)

/-- Destroys member `i` and forgets its name. -/
def drop (i : Nat) : Act Store Unit := do
  destroy i
  modify fun (s, machine) =>
    ({ s with members := s.members.modify i ({ · with dropped := true }) }, machine)

end Store
end AllocChain
