import AllocChain.Proofs.Bump.Top
import AllocChain.Proofs.Twins

/-!
Bump regions that lie low. Below `addressLimit` no sum that a region computes leaves the words, and
rounding up does not fault either: a request is answered or refused, whatever its size and alignment
(`Region.Low.fit_returns`), and so is everything else (`Region.Low.resizeInPlace_returns`). The
rules at the end are for two runs with regions that are equal over memories that need not be.
-/

namespace AllocChain

open Memory

theorem place_returns {base capacity used size k : Nat} (hpos : 0 < base + used)
    (hlow : base + used < 2 ^ 63) : ∃ found, place base capacity used size (2 ^ k) = .ok found := by
  have hlowest : Word.add? base used = some (base + used) :=
    Word.add?_eq_some_iff.2 ⟨Nat.lt_trans hlow (by decide), rfl⟩
  obtain ⟨found, hup⟩ := Word.alignUp?_returns hpos hlow k
  simp only [place, hlowest, hup, bind, Except.bind]
  cases found with
  | none => exact ⟨_, rfl⟩
  | some aligned =>
    obtain ⟨_, _, hle, _⟩ := Word.alignUp?_eq_some hup
    simp only [Word.sub_of_le (Nat.le_trans (Nat.le_add_right base used) hle)]
    cases Word.add? (aligned - base) size <;> exact ⟨_, rfl⟩

namespace Region

/-- The buffer ends below the limit, and no more than all of it is used. -/
structure Low (r : Region) : Prop where
  top : r.base + r.capacity ≤ addressLimit
  used : r.used ≤ r.capacity

variable {r r' : Region} {m m' : Memory} {mem : Slice} {size align k : Nat} {e : Entry}
  {es : List Entry}

theorem Low.addressable (h : r.Low) : r.Addressable := by
  have htop := h.top
  refine ⟨?_, ?_, h.used⟩ <;> simp only [headerSize, addressLimit, wordLimit] at htop ⊢ <;> omega

theorem Low.fit_returns (h : r.Low) (size k : Nat) : ∃ found, r.fit size (2 ^ k) = .ok found := by
  have htop := h.top
  have hused := h.used
  have htaken : Word.add r.used headerSize = .ok (r.used + headerSize) := by
    refine Word.add_of_lt ?_
    simp only [headerSize, addressLimit, wordLimit] at htop ⊢
    omega
  simp only [fit, htaken, bind, Except.bind]
  refine place_returns ?_ ?_ <;> simp only [headerSize, addressLimit] at htop ⊢ <;> omega

theorem remaining_returns (h : r.used ≤ r.capacity) : r.remaining = .ok (r.capacity - r.used) :=
  Word.sub_of_le h

theorem Low.resizeInPlace_returns (h : r.Low) (hm : mem.Bounded) (size k : Nat) :
    ∃ found, r.resizeInPlace mem size (2 ^ k) = .ok found := by
  simp only [resizeInPlace, owns_returns h.addressable hm, bind, Except.bind]
  split
  · exact ⟨_, rfl⟩
  rename_i howned
  simp only [Word.isAligned_two_pow, Bool.not_eq_true, Bool.not_eq_false',
    decide_eq_true_iff] at howned ⊢
  split
  · exact ⟨_, rfl⟩
  simp only [Word.sub_of_le (Nat.le_trans (Nat.le_add_right _ _) howned.1),
    isTop_returns h.addressable hm]
  split
  · cases Word.add? (mem.addr - r.base) size <;> exact ⟨_, rfl⟩
  · exact ⟨_, rfl⟩

/-! ### Two memories -/

/-- A request is answered by where there is room; only the header is written. -/
theorem alloc_eq_map (r : Region) (m : Memory) (size align : Nat) :
    r.alloc m size align = (r.fit size align).map fun found => found.map fun start =>
      (⟨r.base + start, size⟩, { r with used := start + size },
        m.writeWord (r.base + start - headerSize) r.used) := by
  simp only [alloc]
  cases r.fit size align with
  | error fault => rfl
  | ok found => cases found <;> rfl

/-- What the header of a block says does not depend on what else the memory holds. -/
theorem Sound.freeTop_eq (h : r.Sound m (e :: es)) (h' : r.Sound m' (e :: es)) :
    r.freeTop m e.block = r.freeTop m' e.block := by
  simp only [freeTop, h.header e List.mem_cons_self, h'.header e List.mem_cons_self]

/-- Every block of a sound region ends within its buffer. -/
theorem Sound.bounded_block (h : r.Sound m es) (he : e ∈ es) : e.block.Bounded := by
  have h1 := h.upper e he
  have h2 := h.used_le
  have h3 := h.bounded
  simp only [Slice.Bounded]
  omega

theorem Sound.low (h : r.Sound m es) (htop : r.base + r.capacity ≤ addressLimit) : r.Low :=
  ⟨htop, h.used_le⟩

variable {α β : Type} {may : Prop} {post : α → β × Machine → β × Machine → Prop}
  {s s' : β × Machine}

theorem alloc_alike {f f' : Option (Slice × Region × Memory) → Act β α}
    (hlow : may ∨ r.Low) (hpow : ∃ k, align = 2 ^ k)
    (hnone : Act.Alike may post (f none) (f' none) s s')
    (hsome : ∀ block region memory memory',
      r.alloc m size align = .ok (some (block, region, memory)) →
      r.alloc m' size align = .ok (some (block, region, memory')) → (m' = m → memory' = memory) →
      Act.Alike may post (f (some (block, region, memory))) (f' (some (block, region, memory')))
        s s') :
    Act.Alike may post (liftM (r.alloc m size align) >>= f) (liftM (r.alloc m' size align) >>= f')
      s s' := by
  refine .lift_both ?_ ?_
  · rw [alloc_eq_map, alloc_eq_map]
    cases hfit : r.fit size align with
    | ok found => exact .inr ⟨_, _, rfl, rfl⟩
    | error fault =>
      refine .inl ⟨hlow.resolve_right fun hlow => ?_, fault, rfl, rfl⟩
      obtain ⟨k, rfl⟩ := hpow
      obtain ⟨found, hreturns⟩ := hlow.fit_returns size k
      cases hfit.symm.trans hreturns
  · intro a a' ha ha'
    have hcase := ha
    have hcase' := ha'
    rw [alloc_eq_map] at hcase hcase'
    cases hfit : r.fit size align with
    | error fault =>
      rw [hfit] at hcase
      cases hcase
    | ok found =>
      rw [hfit] at hcase hcase'
      cases found with
      | none =>
        cases hcase
        cases hcase'
        exact hnone
      | some start =>
        cases hcase
        cases hcase'
        exact hsome _ _ _ _ ha ha' fun hm => by rw [hm]

theorem freeTop_alike {f f' : Option Region → Act β α} (hlow : may ∨ r.Low)
    (h : r.Sound m (e :: es)) (h' : r.Sound m' (e :: es))
    (hf : ∀ found, r.freeTop m e.block = .ok found → r.freeTop m' e.block = .ok found →
      Act.Alike may post (f found) (f' found) s s') :
    Act.Alike may post (liftM (r.freeTop m e.block) >>= f) (liftM (r.freeTop m' e.block) >>= f')
      s s' := by
  rw [← h.freeTop_eq h'] at hf ⊢
  refine .lift_bind (hlow.imp_right fun hlow => ?_) fun found hfound => hf found hfound hfound
  exact ⟨_, freeTop_returns hlow.addressable (h.bounded_block List.mem_cons_self)⟩

end Region
end AllocChain
