import AllocChain.Proofs.Request

/-!
How an allocator meets the interface contract that moves the blocks which it cannot resize in any
other way. `Lending` asks what its requests and frees do, and what a resize does beside moving. The
law of a moved block follows (`Lending.relocate`), and with it the contract (`Lending.contract`).
-/

namespace AllocChain

open Memory

variable {γ : Type}

/-- What a resize may leave behind: it is refused and nothing has changed, or the old block is
exchanged for one that meets the request and has its bytes. -/
def Exchanged (holds : List Slice → γ × Machine → Prop) (old : Slice) (out : List Slice)
    (size align : Nat) (s : γ × Machine) : Answer → γ × Machine → Prop
  | .error _, t => holds (old :: out) t ∧ AgreesOn (old :: out) s.2.memory t.2.memory
  | .ok block, t => block.Meets size align ∧ holds (block :: out) t ∧
      AgreesOn out s.2.memory t.2.memory ∧ Carried old block s.2.memory t.2.memory

/-- The operations of an allocator that moves blocks; `adjust` is what a resize to some bytes
does. -/
structure Lending (A : Allocator γ) (adjust : Slice → Nat → Nat → Act γ Answer)
    (holds : List Slice → γ × Machine → Prop) : Prop where
  resize_eq : A.resize = resizeBy A.alloc A.free adjust
  perm {out out' s} : out.Perm out' → holds out s → holds out' s
  write {out b m m'} : holds out (b, m) → WrittenIn out m.memory m'.memory → holds out (b, m')
  apart {out s} : holds out s → out.Pairwise Slice.Disjoint
  bounded {out s} : holds out s → ∀ block ∈ out, block.Bounded
  nonnull {out s} : holds out s → ∀ block ∈ out, block.addr ≠ 0
  alloc {out s size align block t} : holds out s → A.alloc size align s = .ok (.ok block, t) →
    block.Meets size align ∧ holds (block :: out) t ∧ AgreesOn out s.2.memory t.2.memory
  alloc_refused {out s size align e t} : holds out s → A.alloc size align s = .ok (.error e, t) →
    holds out t ∧ AgreesOn out s.2.memory t.2.memory
  free {out s block t} : holds (block :: out) s → A.free block s = .ok ((), t) →
    holds out t ∧ AgreesOn out s.2.memory t.2.memory
  adjust {out s old size align r t} : holds (old :: out) s → 0 < size → (∃ k, align = 2 ^ k) →
    adjust old size align s = .ok (r, t) →
    Exchanged holds old out size align s r t ∨ relocate A.alloc A.free old size align s = .ok (r, t)

namespace Lending

variable {A : Allocator γ} {adjust : Slice → Nat → Nat → Act γ Answer}
  {holds : List Slice → γ × Machine → Prop} {out : List Slice} {s t : γ × Machine} {old : Slice}
  {size align : Nat} {r : Answer}

/-- When a block is moved, the old and the new one are both there while the bytes are copied. -/
theorem copied (h : Lending A adjust holds) {fresh : Slice} (hh : holds (old :: out) s)
    (ha : A.alloc size align s = .ok (.ok fresh, t)) :
    holds (old :: fresh :: out) (t.1, t.2.mapMemory (·.copyCommon old fresh)) := by
  obtain ⟨_, hnew, _⟩ := h.alloc hh ha
  have hwritten := writtenIn_copyCommon t.2.memory old fresh
  exact h.perm (.swap _ _ _) (h.write hnew (hwritten.mem List.mem_cons_self))

/-- A moved block has got its bytes before the old one is given back. -/
theorem relocate (h : Lending A adjust holds) (hh : holds (old :: out) s)
    (hr : AllocChain.relocate A.alloc A.free old size align s = .ok (r, t)) :
    Exchanged holds old out size align s r t := by
  rcases relocate_ok hr with ⟨e, rfl, ha⟩ | ⟨fresh, u, rfl, ha, hf⟩
  · exact h.alloc_refused hh ha
  obtain ⟨hmeets, hnew, hsame⟩ := h.alloc hh ha
  have hwritten := writtenIn_copyCommon u.2.memory old fresh
  obtain ⟨hend, hrest⟩ := h.free (h.copied hh ha) hf
  have hout : AgreesOn out u.2.memory (u.2.memory.copyCommon old fresh) :=
    hwritten.agreesOn fun other ho =>
      (List.pairwise_cons.1 (h.apart hnew)).1 other (List.mem_cons_of_mem _ ho)
  refine ⟨hmeets, hend, ?_, ?_⟩
  · have hbefore : AgreesOn out s.2.memory u.2.memory := hsame.subset (List.subset_cons_self _ _)
    exact (hbefore.trans hout).trans (hrest.subset (List.subset_cons_self _ _))
  · intro i hi hi'
    rw [hrest fresh List.mem_cons_self _ (Slice.has_add hi')]
    have hcopy := carried_copyCommon (m := u.2.memory) (h.nonnull hh old List.mem_cons_self)
      (h.nonnull hnew fresh List.mem_cons_self) i hi hi'
    exact hcopy.trans (hsame old List.mem_cons_self _ (Slice.has_add hi))

/-- A resize to some bytes is refused or exchanges the block. -/
theorem resize (h : Lending A adjust holds) (hh : holds (old :: out) s) (hn : old.isNull = false)
    (hs : size ≠ 0) (hr : A.resize old size align s = .ok (r, t)) :
    Exchanged holds old out size align s r t := by
  rw [h.resize_eq] at hr
  rcases resizeBy_ok hn hs hr with ⟨e, rfl, rfl⟩ | ⟨hpow, hadj⟩
  · exact ⟨hh, .refl _ _⟩
  have hchanged : Exchanged holds old out size (normalizeAlign align) s r t := by
    rcases h.adjust hh (Nat.pos_of_ne_zero hs) hpow hadj with hdone | hreloc
    · exact hdone
    · exact h.relocate hh hreloc
  cases r with
  | error e => exact hchanged
  | ok block =>
    obtain ⟨⟨hlen, hdvd⟩, hrest⟩ := hchanged
    rw [normalizeAlign_idem] at hdvd
    exact ⟨⟨hlen, hdvd⟩, hrest⟩

theorem supply (h : Lending A adjust holds) : Supply A Slice.Answers holds where
  perm := h.perm
  report hh := h.write hh (.refl _ _)
  write := h.write
  apart := h.apart
  bounded := h.bounded
  alloc hh ha := by
    obtain ⟨hmeets, hnew, _⟩ := h.alloc hh ha
    exact ⟨⟨hmeets, h.nonnull hnew _ List.mem_cons_self⟩, hnew⟩
  alloc_refused hh ha := (h.alloc_refused hh ha).1
  resize hh hn hs hr := by
    obtain ⟨hmeets, hnew, _⟩ := h.resize hh hn hs hr
    exact ⟨⟨hmeets, h.nonnull hnew _ List.mem_cons_self⟩, hnew⟩
  resize_refused hh hn hs hr := (h.resize hh hn hs hr).1
  free hh hf := (h.free hh hf).1

theorem custody (h : Lending A adjust holds) : Custody A holds where
  alloc {out s size align r t} hh ha := by
    cases r with
    | error e => exact (h.alloc_refused hh ha).2
    | ok block => exact (h.alloc hh ha).2.2
  resize hh hn hs hr := (h.resize hh hn hs hr).2.2
  resize_refused hh hn hs hr := (h.resize hh hn hs hr).2
  free hh hf := (h.free hh hf).2

theorem contract (h : Lending A adjust holds) : Contract A holds := ⟨h.supply, h.custody⟩

end Lending
end AllocChain
