import AllocChain.Proofs.Breakdown
import AllocChain.Proofs.Frame
import AllocChain.Proofs.Lending

/-!
The edges of an allocator: the states in which a request or a resize of one of its blocks breaks
off, and how (`Edges`, `Allocator.BreaksAt`). Moving a block breaks off just as the request for the
new one does, if the old one can be given back after that (`Lending.relocate_breaksJust`).
-/

namespace AllocChain

open Memory

variable {β γ : Type}

/-- How the requests and the resizes of an allocator break off in each state. -/
structure Edges (β : Type) where
  alloc (size align : Nat) (s : β × Machine) : Breakdown → Prop
  resize (block : Slice) (size align : Nat) (s : β × Machine) : Breakdown → Prop

/-- The requests of the allocator break off just at these edges, and so do the resizes of its
blocks to some bytes. Taking a block back never does. -/
structure Allocator.BreaksAt (A : Allocator γ) (E : Edges γ)
    (holds : List Slice → γ × Machine → Prop) : Prop where
  alloc {out s} (size align : Nat) : holds out s →
    (A.alloc size align).BreaksJust (E.alloc size align s) s
  resize {out s old size} (align : Nat) : holds (old :: out) s → size ≠ 0 →
    (A.resize old size align).BreaksJust (E.resize old size align s) s
  free {out s block} : holds (block :: out) s → ∃ t, A.free block s = .ok ((), t)

variable {A : Allocator γ} {E : Edges γ} {adjust : Slice → Nat → Nat → Act γ Answer}
  {holds : List Slice → γ × Machine → Prop} {old : Slice} {out : List Slice}
  {s : γ × Machine} {size align : Nat} {cause : Breakdown → Prop}

theorem Allocator.BreaksAt.mono {holds' : List Slice → γ × Machine → Prop}
    (h : A.BreaksAt E holds) (himp : ∀ out s, holds' out s → holds out s) :
    A.BreaksAt E holds' where
  alloc size align hh := h.alloc size align (himp _ _ hh)
  resize align hh hs := h.resize align (himp _ _ hh) hs
  free hh := h.free (himp _ _ hh)

theorem Allocator.BreaksAt.framed (h : A.BreaksAt E holds) (others : List Slice) (m₀ : Memory) :
    A.BreaksAt E (Framed holds others m₀) where
  alloc size align hh := h.alloc size align hh.1
  resize align hh hs := h.resize align hh.1 hs
  free hh := h.free hh.1

namespace Lending

theorem resize_breaksJust (h : Lending A adjust holds) (hh : holds (old :: out) s) (hs : size ≠ 0)
    (hadjust : (∃ k, normalizeAlign align = 2 ^ k) →
      (adjust old size (normalizeAlign align)).BreaksJust cause s) :
    (A.resize old size align).BreaksJust (fun brk => ValidRequest size align ∧ cause brk) s := by
  have hn := Slice.isNull_eq_false.2 (h.nonnull hh old List.mem_cons_self)
  rw [h.resize_eq]
  by_cases hpow : ∃ k, normalizeAlign align = 2 ^ k
  · rw [resizeBy_valid hn hs hpow]
    exact (hadjust hpow).congr fun brk => (and_iff_right ⟨Nat.pos_of_ne_zero hs, hpow⟩).symm
  · rw [resizeBy_invalid hn hs hpow]
    exact .of_only (.pure _ _) fun brk hbrk => hpow hbrk.1.2

/-- Moving a block breaks off just as the request for the new one does, if after that the old one
can be given back. -/
theorem relocate_breaksJust (h : Lending A adjust holds) (hh : holds (old :: out) s)
    (halloc : (A.alloc size align).BreaksJust cause s)
    (hfree : ∀ {fresh u}, A.alloc size align s = .ok (.ok fresh, u) →
      ∃ t, A.free old (u.1, u.2.mapMemory (·.copyCommon old fresh)) = .ok ((), t)) :
    (AllocChain.relocate A.alloc A.free old size align).BreaksJust cause s := by
  simp only [AllocChain.relocate]
  refine halloc.before ?_
  intro answer u ha
  cases answer with
  | error e => exact .pure _ _
  | ok fresh =>
    have hapart := (List.pairwise_cons.1 (h.apart (h.copied hh ha))).1 fresh List.mem_cons_self
    obtain ⟨t, ht⟩ := hfree ha
    refine .bind (.demand fun hover => hover hapart.copiesApart) fun _ v hv => ?_
    obtain ⟨_, rfl⟩ := Act.lift_ok.1 hv
    refine .bind (.changeMemory _ _) fun _ w hw => ?_
    rw [Act.changeMemory_ok.1 hw]
    exact .bind (.of_ok ht) fun _ _ _ => .pure _ _

end Lending
end AllocChain
