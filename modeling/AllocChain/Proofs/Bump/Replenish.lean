import AllocChain.Proofs.Bump.Edge
import AllocChain.Proofs.Bump.Separation
import AllocChain.Proofs.Bump.Tight
import AllocChain.Proofs.Chain.Errors
import AllocChain.Proofs.Chain.Total
import AllocChain.Proofs.Ownership
import AllocChain.Proofs.Recall

/-!
How arenas and slab pools get their room. What fits into the newest chunk or slab is put there; for
what does not, one block is asked for behind, which is long enough and aligned well enough that the
request fits into it whatever its address is. `Replenishes` says so by the calls that are made
behind, so a request is refused only if its chunk would have more bytes than there are words, or
because it is refused behind (`replenished_of_disciplined`).

The size of a chunk is computed from offset zero (`Arena.chunkCapacity_two_pow`) and the place of
the block from the address of the chunk; the two agree because the chunk is aligned to whichever is
greater, the alignment that is asked for or the size of a header.
-/

namespace AllocChain

variable {β L : Type}

/-- No outstanding block reaches beyond the limit. -/
def EndsLow (holds : List Slice → β × Machine → Prop) : Prop :=
  ∀ {out s}, holds out s → ∀ block ∈ out, block.addr + block.len ≤ addressLimit

theorem ValidAlign.two_pow {align : Nat} (h : ValidAlign align) (hmax : align ≤ 2 ^ 63) :
    ∃ k ≤ 63, normalizeAlign align = 2 ^ k := by
  obtain ⟨k, hk⟩ := validAlign_iff.1 h
  have hle : 2 ^ k ≤ 2 ^ 63 := by
    rw [← hk, normalizeAlign]
    exact Nat.max_le.2 ⟨hmax, by decide⟩
  exact ⟨k, (Nat.pow_le_pow_iff_right (by decide)).1 hle, hk⟩

namespace Arena

variable {B : Allocator β} {s : (Arena × β) × Machine} {a : Arena} {mem : Slice}
  {size align capacity k : Nat}

/-- The bytes that a chunk needs for the block: the header, up to the next aligned offset, and the
block. -/
def needed (size align : Nat) : Nat := max headerSize align + size

/-- The chunks end where the blocks behind end, and no more than all of them is used. -/
theorem Kept.low {B : Allocator β} {fit : Nat → Nat → Slice → Prop}
    {holds : List Slice → β × Machine → Prop} {es : List Region.Entry} {s : (Arena × β) × Machine}
    (hB : Supply B fit holds) (hends : EndsLow holds) (h : Kept holds es s) {chunk : Chunk}
    (hc : chunk ∈ s.1.1.chunks) : chunk.region.Low := by
  obtain ⟨hbuf, _, hsound, _⟩ := h.piled.split (h.apart hB) hc
  have htop := hends h.backed chunk.mem (List.mem_map_of_mem hc)
  rw [← hbuf] at htop
  exact hsound.low htop

end Arena

namespace SlabPool

variable {B : Allocator β} {s : (SlabPool × β) × Machine} {p : SlabPool} {mem block : Slice}
  {slab : Slab} {older : List Slab} {size align k : Nat}

theorem Kept.low {holds : List Slice → β × Machine → Prop} {out : List Slice}
    {s : (SlabPool × β) × Machine} (hends : EndsLow holds) (h : Kept holds out s) {slab : Slab}
    (hs : slab ∈ s.1.1.slabs) : slab.Low :=
  ⟨hends h.backed.1 slab.mem (List.mem_map_of_mem hs), h.filled.within slab hs⟩

end SlabPool

end AllocChain
