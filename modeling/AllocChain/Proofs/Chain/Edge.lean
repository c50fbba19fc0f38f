import AllocChain.Proofs.Bump.Settling
import AllocChain.Proofs.Chain.Run
import AllocChain.Proofs.Classes.Edge
import AllocChain.Proofs.CountingEdge
import AllocChain.Scripted

/-!
Just when a chain breaks off. Each tier has edges of its own and those of what it stands on
(`Tier.edges`), so the edges of a chain are found from the bottom up, and at the bottom there are
those of a region or none at all. As long as a chain stands, what is asked of it breaks off at these
edges and nowhere else (`Chain.breaksAt`).
-/

namespace AllocChain

open Memory

variable {β γ L : Type}

/-! ### At the bottom -/

/-- Those of an allocator that never breaks off. -/
def Edges.none : Edges γ where
  alloc _ _ _ _ := False
  resize _ _ _ _ _ := False

namespace ScriptedHeap

variable {allowed : Breakdown → Prop}

theorem alloc_breaksOnly (size align : Nat) (s : ScriptedHeap × Machine) :
    (alloc size align).BreaksOnly allowed s := by
  simp only [alloc]
  refine .bind (.of_ok rfl) fun answer t _ => .bind (.of_ok rfl) fun _ u _ => ?_
  cases answer with
  | error e => exact .of_ok rfl
  | ok block => exact .of_ok rfl

theorem resize_breaksOnly (mem : Slice) (size align : Nat) (s : ScriptedHeap × Machine) :
    (resize mem size align).BreaksOnly allowed s := by
  simp only [resize]
  split_ifs
  · exact alloc_breaksOnly size align s
  · exact .of_ok rfl
  · exact .of_ok rfl
  · refine .bind (.of_ok rfl) fun answer t _ => .bind (.of_ok rfl) fun _ u _ => ?_
    cases answer with
    | error e => exact .of_ok rfl
    | ok fresh => exact .of_ok rfl

/-- Whatever a scripted heap is asked, it comes to an end. -/
theorem breaksAt (holds : List Slice → ScriptedHeap × Machine → Prop) :
    ScriptedHeap.allocator.BreaksAt .none holds where
  alloc size align _ := .of_only (alloc_breaksOnly size align _) fun _ => id
  resize align _ _ := .of_only (resize_breaksOnly _ _ align _) fun _ => id
  free _ := ⟨_, rfl⟩

end ScriptedHeap

/-! ### Tiers -/

/-- Edges that do not depend on what is below. -/
def Edges.above (E : Edges L) : Edges (L × β) where
  alloc size align s := E.alloc size align (s.1.1, s.2)
  resize block size align s := E.resize block size align (s.1.1, s.2)

theorem Act.BreaksJust.above {α : Type} {x : Act L α} {cause : Breakdown → Prop}
    {s : (L × β) × Machine} (hx : x.BreaksJust cause (s.1.1, s.2)) :
    (Act.above x : Act (L × β) α).BreaksJust cause s := by
  intro brk
  obtain ⟨⟨l, b⟩, m⟩ := s
  rw [← hx brk, Act.above_apply]
  cases x (l, m) <;> simp [Except.map]

theorem Allocator.BreaksAt.above {A : Allocator L} {E : Edges L}
    {holds : List Slice → L × Machine → Prop} (h : A.BreaksAt E holds) :
    (A.lift Act.above : Allocator (L × β)).BreaksAt E.above
      fun out s => holds out (s.1.1, s.2) where
  alloc size align hh := .above (h.alloc size align hh)
  resize align hh hs := .above (h.resize align hh hs)
  free hh := by
    obtain ⟨t, ht⟩ := h.free hh
    exact ⟨_, Act.above_ok.2 ⟨t, ht, rfl⟩⟩

namespace Tier

/-- The edges of a tier over `B`, whose edges are `E`. -/
def edges (B : Allocator β) (E : Edges β) : (tier : Tier) → Edges (tier.Book × β)
  | fixed _ => Fixed.edges.above
  | arena _ => Arena.edges B E
  | slabs _ => SlabPool.edges B E
  | general _ => GeneralPurpose.edges E
  | counting => Counters.edges B E

variable {B : Allocator β} {E : Edges β} {holds : List Slice → β × Machine → Prop}

/-- A tier that stands breaks off at its edges only. -/
theorem breaksAt (hB : Service B holds) (hE : B.BreaksAt E holds) (tier : Tier) :
    (tier.allocator B).BreaksAt (tier.edges B E) (tier.Stands holds) := by
  cases tier with
  | fixed buffer => exact Fixed.breaksAt.above.mono fun _ _ h => h.stacked
  | arena n => exact Arena.breaksAt hB.toContract hE
  | slabs n => exact SlabPool.breaksAt hB.toContract hE
  | general n => exact GeneralPurpose.breaksAt hB.toContract hE
  | counting => exact Counters.breaksAt hB hE

end Tier

/-! ### Chains -/

namespace Chain

/-- The edges of a chain over `B`, whose edges are `E`. -/
def edges (B : Allocator β) (E : Edges β) : (tiers : List Tier) → Edges (Book β tiers)
  | [] => E
  | tier :: tiers => tier.edges (allocator B tiers) (edges B E tiers)

/-- A chain that stands breaks off at its edges only. -/
theorem breaksAt {B : Allocator β} {E : Edges β} {holds : List Slice → β × Machine → Prop}
    (hB : Service B holds) (hE : B.BreaksAt E holds) (m₀ : Memory) (tiers : List Tier)
    (clients : Nat → List Slice) :
    (allocator B tiers).BreaksAt (edges B E tiers) (Stands holds m₀ tiers clients) := by
  induction tiers generalizing clients with
  | nil => exact hE
  | cons tier tiers ih =>
    exact Tier.breaksAt ((service hB m₀ tiers _).framed _ _) ((ih _).framed _ _) tier

end Chain
end AllocChain
