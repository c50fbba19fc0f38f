import AllocChain.Proofs.Bump.Arena
import AllocChain.Proofs.Bump.Seated
import AllocChain.Proofs.Bump.Slab
import AllocChain.Proofs.Bump.Top
import AllocChain.Proofs.Classes.Custody
import AllocChain.Proofs.Classes.Release
import AllocChain.Proofs.Classes.Shape
import AllocChain.Proofs.Counting

/-!
The kinds of allocators that stand on another one, under one name. Whatever tier is put on an
allocator that offers the whole interface, it offers the interface too (`Tier.service`); some tiers
do so over less (`Tier.Needs`). What a tier has to know of the allocator below is only what it holds
there (`Tier.quiet`): as long as its own blocks there stay and keep their bytes, others may use that
allocator as they like.
-/

namespace AllocChain

open Memory Region

/-- A kind of allocator that stands on another one, and what it is made with. -/
inductive Tier where
  | fixed (buffer : Slice)
  | arena (chunkSize : Nat)
  | slabs (slabSize : Nat)
  | general (bucketSize : Nat)
  | counting

namespace Tier

variable {β : Type}

/-- The bookkeeping of a tier. -/
@[reducible]
def Book : Tier → Type
  | fixed _ => Region
  | arena _ => Arena
  | slabs _ => SlabPool
  | general _ => GeneralPurpose
  | counting => Counters

/-- The bookkeeping to start with. -/
def new : (tier : Tier) → tier.Book
  | fixed buffer => .ofSlice buffer
  | arena chunkSize => .new chunkSize
  | slabs slabSize => .new slabSize
  | general bucketSize => .new bucketSize
  | counting => .zero

/-- The blocks of the allocator below that a tier has to be given. -/
def ground : Tier → List Slice
  | fixed buffer => [buffer]
  | _ => []

/-- The tier over the allocator `B`. -/
def allocator (B : Allocator β) : (tier : Tier) → Allocator (tier.Book × β)
  | fixed _ => Fixed.allocator.lift Act.above
  | arena _ => Arena.allocator B
  | slabs _ => SlabPool.allocator B
  | general _ => GeneralPurpose.allocator B
  | counting => Counters.allocator B

/-- The operations of a tier that take back all its blocks. -/
def sweeps (B : Allocator β) : (tier : Tier) → List (Act (tier.Book × β) Unit)
  | fixed _ => [Act.above Fixed.reset]
  | arena _ => [Arena.reset B, Arena.destroy B]
  | slabs _ => [SlabPool.destroy B]
  | general _ => [GeneralPurpose.destroy B]
  | counting => []

/-- The blocks of `out` are those of the tier, which stands on what it holds below. -/
def Stands (holds : List Slice → β × Machine → Prop) :
    (tier : Tier) → List Slice → (tier.Book × β) × Machine → Prop
  | fixed _ => Fixed.Seated holds
  | arena _ => fun out s => Stacking.Holds (Arena.Kept holds) out s ∧ Arena.Roomy s
  | slabs _ => SlabPool.Kept holds
  | general _ => fun out s => GeneralPurpose.Kept (NonNull holds) out s ∧ s.1.1.Shaped
  | counting => Counters.Kept holds

/-- What a tier has to be offered: one that puts its own blocks into those from below only needs
those to stay its own, while the others pass on what they are promised. -/
def Needs (B : Allocator β) (holds : List Slice → β × Machine → Prop) : Tier → Prop
  | fixed _ | arena _ | slabs _ => Keeper B holds
  | general _ | counting => Service B holds

variable {B : Allocator β} {holds holds' : List Slice → β × Machine → Prop} {out : List Slice}

theorem needs (hB : Service B holds) (tier : Tier) : tier.Needs B holds := by
  cases tier with
  | fixed | arena | slabs => exact hB.keeper
  | general | counting => exact hB

/-- Every tier offers the whole interface if it gets what it needs. -/
theorem service {tier : Tier} (hB : tier.Needs B holds) :
    Service (tier.allocator B) (tier.Stands holds) := by
  cases tier with
  | fixed buffer => exact Fixed.seated_service hB.supply
  | arena n =>
    have hstack := Arena.stacking hB.supply hB.custody
    exact (hstack.contract.service hstack.orderly).during (Arena.steady_roomy B)
  | slabs n => exact (SlabPool.lending hB).contract.service (SlabPool.orderly B)
  | general n =>
    have hgeneral := (GeneralPurpose.lending hB.toContract).contract.service
      (GeneralPurpose.orderly B)
    exact hgeneral.during (GeneralPurpose.shaped_steady B)
  | counting => exact Counters.service hB

theorem stands_new {tier : Tier} (hB : tier.Needs B holds) {s : β × Machine}
    (h : holds tier.ground s) : tier.Stands holds [] ((tier.new, s.1), s.2) := by
  cases tier with
  | fixed buffer =>
    have hbound : buffer.Bounded := hB.supply.bounded h buffer (List.mem_singleton_self _)
    exact ⟨h, [], .nil, sound_empty hbound (Nat.zero_le _)⟩
  | arena n => exact ⟨⟨[], .nil, .new n h⟩, by simp [Arena.Roomy, new, Arena.new]⟩
  | slabs n => exact .new n h
  | general n => exact ⟨.new n ⟨h, by simp⟩, .new n⟩
  | counting => exact ⟨⟨h, by simp⟩, .zero, show 0 < wordLimit by decide⟩

/-- A sweep takes all blocks back. -/
theorem stands_sweep {tier : Tier} (hB : tier.Needs B holds) {x : Act (tier.Book × β) Unit}
    {s t : (tier.Book × β) × Machine} (h : tier.Stands holds out s) (hx : x ∈ tier.sweeps B)
    (hsweep : x s = .ok ((), t)) : tier.Stands holds [] t := by
  cases tier with
  | fixed buffer =>
    rw [List.mem_singleton.1 hx] at hsweep
    obtain ⟨u, hreset, rfl⟩ := Act.above_ok.1 hsweep
    exact h.kept hB.supply (Fixed.reset_keeps hreset) (Fixed.reset_holds h.stacked hreset)
  | arena n =>
    obtain ⟨⟨es, _, hk⟩, hroom⟩ := h
    refine ⟨?_, hroom.sweep hx hsweep⟩
    rcases List.mem_pair.1 hx with rfl | rfl
    · exact ⟨[], .nil, hk.reset hB.supply hsweep⟩
    · exact ⟨[], .nil, hk.destroy hB.supply hsweep⟩
  | slabs n =>
    rw [List.mem_singleton.1 hx] at hsweep
    exact SlabPool.Kept.destroy hB h hsweep
  | general n =>
    rw [List.mem_singleton.1 hx] at hsweep
    refine ⟨h.1.destroy hB.meets hsweep, ?_⟩
    rw [(GeneralPurpose.destroy_ok hB.meets.toLedger hsweep h.1.backed).1]
    exact h.2.cleared
  | counting => cases hx

theorem backed {tier : Tier} {s : (tier.Book × β) × Machine} (h : tier.Stands holds out s) :
    ∃ blocks, holds blocks (s.1.2, s.2) := by
  cases tier with
  | fixed buffer => exact ⟨_, h.backed⟩
  | arena n =>
    obtain ⟨⟨_, _, hk⟩, _⟩ := h
    exact ⟨_, hk.backed⟩
  | slabs n => exact ⟨_, h.backed.1⟩
  | general n => exact ⟨_, h.1.backed.1⟩
  | counting => exact ⟨_, h.backed.1⟩

theorem nonnull {tier : Tier} (hB : tier.Needs B holds) {s : (tier.Book × β) × Machine}
    (h : tier.Stands holds out s) {block : Slice} (hb : block ∈ out) : block.addr ≠ 0 := by
  cases tier with
  | fixed buffer =>
    obtain ⟨es, hp, hk⟩ := h.stacked
    obtain ⟨e, he, rfl⟩ := List.mem_map.1 (hp.mem_iff.2 hb)
    exact Fixed.stacking.not_null hk he
  | arena n =>
    obtain ⟨⟨es, hp, hk⟩, _⟩ := h
    obtain ⟨e, he, rfl⟩ := List.mem_map.1 (hp.mem_iff.2 hb)
    exact (Arena.stacking hB.supply hB.custody).not_null hk he
  | slabs n => exact h.nonnull hb
  | general n => exact h.1.nonnull hB.toContract hb
  | counting => exact h.backed.2 block hb

/-- What happens below and leaves there what the tier holds, whatever that is, leaves the tier
standing and its blocks as they were. -/
theorem quiet {tier : Tier} (hB : tier.Needs B holds) {s : (tier.Book × β) × Machine}
    {u : β × Machine} (h : tier.Stands holds out s)
    (hq : ∀ blocks, holds blocks (s.1.2, s.2) →
      holds' blocks u ∧ AgreesOn blocks s.2.memory u.2.memory) :
    tier.Stands holds' out ((s.1.1, u.1), u.2) ∧ AgreesOn out s.2.memory u.2.memory := by
  cases tier with
  | fixed buffer =>
    obtain ⟨hback, hsame⟩ := hq _ h.backed
    have hblocks : AgreesOn out s.2.memory u.2.memory :=
      hsame.inside fun block hb => ⟨_, List.mem_singleton_self _, h.inside hb⟩
    obtain ⟨es, hp, hk⟩ := h.stacked
    refine ⟨⟨hback, es, hp, Sound.memory hk (hsame.inside fun header hmem => ?_)⟩, hblocks⟩
    obtain ⟨e, he, rfl⟩ := List.mem_map.1 hmem
    exact ⟨_, List.mem_singleton_self _, e.header_inside.trans (Sound.extent_inside hk he)⟩
  | arena n =>
    obtain ⟨⟨es, hp, hk⟩, hroom⟩ := h
    obtain ⟨hback, hsame⟩ := hq _ hk.backed
    have hextents := hk.agreesOn hsame
    have hpiled := hk.piled.memory (Entry.agreesOn_headers_of_extents hextents)
    exact ⟨⟨⟨es, hp, hback, hpiled⟩, hroom⟩,
      (Arena.stacking hB.supply hB.custody).agreesOn_blocks hk hp hextents⟩
  | slabs n =>
    obtain ⟨hback, hsame⟩ := hq _ h.backed.1
    exact ⟨⟨⟨hback, h.backed.2⟩, h.filled⟩, h.agreesOn hsame⟩
  | general n =>
    obtain ⟨hback, hsame⟩ := hq _ h.1.backed.1
    exact ⟨⟨{ h.1 with backed := ⟨hback, h.1.backed.2⟩ }, h.2⟩, h.1.agreesOn hB.meets hsame⟩
  | counting =>
    obtain ⟨hback, hsame⟩ := hq _ h.backed.1
    exact ⟨⟨⟨hback, h.backed.2⟩, h.balanced, h.counted⟩, hsame⟩

end Tier
end AllocChain
