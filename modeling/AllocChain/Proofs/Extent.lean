import AllocChain.Memory.Basic

/-!
Slices as sets of addresses: which addresses a slice has, when one slice lies inside another, and
when two have no address in common. An empty slice has no address, so it is disjoint from all.
-/

namespace AllocChain

namespace Slice

/-- The slice has the address. -/
def Has (s : Slice) (a : Nat) : Prop := s.addr ≤ a ∧ a < s.addr + s.len

/-- The slice starts and ends within `t`. -/
def Inside (s t : Slice) : Prop := t.addr ≤ s.addr ∧ s.addr + s.len ≤ t.addr + t.len

/-- The slices have no address in common. -/
def Disjoint (s t : Slice) : Prop := ∀ a, s.Has a → ¬ t.Has a

/-- The slice ends below the last address, so it does not wrap round. -/
def Bounded (s : Slice) : Prop := s.addr + s.len < wordLimit

instance (s : Slice) (a : Nat) : Decidable (s.Has a) := inferInstanceAs (Decidable (_ ∧ _))
instance (s t : Slice) : Decidable (s.Inside t) := inferInstanceAs (Decidable (_ ∧ _))
instance (s : Slice) : Decidable s.Bounded := inferInstanceAs (Decidable (_ < _))

theorem Disjoint.symm {s t : Slice} (h : s.Disjoint t) : t.Disjoint s :=
  fun a ht hs => h a hs ht

/-- Slices with addresses are disjoint if one ends before the other starts. -/
theorem disjoint_iff {s t : Slice} (hs : 0 < s.len) (ht : 0 < t.len) :
    s.Disjoint t ↔ s.addr + s.len ≤ t.addr ∨ t.addr + t.len ≤ s.addr := by
  constructor
  · intro h
    have h1 := h s.addr
    have h2 := h t.addr
    simp only [Has] at h1 h2
    omega
  · intro h a hsa hta
    simp only [Has] at hsa hta
    omega

theorem disjoint_of_le {s t : Slice} (h : s.addr + s.len ≤ t.addr ∨ t.addr + t.len ≤ s.addr) :
    s.Disjoint t := by
  intro a hs ht
  simp only [Has] at hs ht
  omega

theorem Inside.has {s t : Slice} (h : s.Inside t) {a : Nat} (ha : s.Has a) : t.Has a := by
  simp only [Inside] at h
  simp only [Has] at ha ⊢
  omega

theorem Inside.trans {s t u : Slice} (h : s.Inside t) (h' : t.Inside u) : s.Inside u := by
  simp only [Inside] at *
  omega

theorem Inside.refl (s : Slice) : s.Inside s := ⟨Nat.le_refl _, Nat.le_refl _⟩

theorem Disjoint.mono {s t s' t' : Slice} (h : s.Disjoint t) (hs : s'.Inside s)
    (ht : t'.Inside t) : s'.Disjoint t' :=
  fun a ha ha' => h a (hs.has ha) (ht.has ha')

/-- Between disjoint slices nothing is written that is read. -/
theorem Disjoint.copiesApart {s t : Slice} (h : s.Disjoint t) : s.CopiesApart t := by
  have hle := common_le s t
  have h1 := h s.addr
  have h2 := h t.addr
  simp only [Has] at h1 h2
  simp only [CopiesApart]
  omega

theorem isNull_eq_false {s : Slice} : s.isNull = false ↔ s.addr ≠ 0 := beq_eq_false_iff_ne

theorem has_add {s : Slice} {i : Nat} (h : i < s.len) : s.Has (s.addr + i) := by
  simp only [Has]
  omega

theorem has_addr {s : Slice} (h : 0 < s.len) : s.Has s.addr := by
  simp only [Has]
  omega

end Slice
end AllocChain
