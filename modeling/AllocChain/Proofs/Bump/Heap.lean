import AllocChain.Proofs.Bump.InPlace
import AllocChain.Proofs.Bump.Restore

/-!
Blocks of bump regions that can be taken back in the reverse order (`Heap`): each of them heads the
newest region when its turn comes, and ends above the older ones there. Requests put a block on the
heap, frees take one away. A resize that leaves a block where it is changes the region that the
block is on top of, so what is on the heap stays there, unless a block shrinks that is `Buried`: it
does not end where its region is used up to any more, and the heap ends above it.
-/

namespace AllocChain

open Memory

namespace Region

/-- No region is used up to the end of the slice. -/
def Buried (regions : List Region) (mem : Slice) : Prop := ∀ r ∈ regions, ¬ r.Tops mem

instance (regions : List Region) (mem : Slice) : Decidable (Buried regions mem) :=
  inferInstanceAs (Decidable (∀ r ∈ regions, ¬ r.Tops mem))

/-- The entry is that of the top block of the region, and the older ones there end below it. -/
structure Heads (r : Region) (e : Entry) (older : List Entry) : Prop where
  tops : r.Tops e.block
  within : r.used ≤ r.capacity
  lower : r.base + e.below + headerSize ≤ e.block.addr
  under : ∀ x ∈ older, r.buffer.Has x.block.addr →
    x.block.addr + x.block.len ≤ r.base + e.below

/-- Taking the entries back leads to `base`, as `Unwinds` has it, and each of them heads the newest
region when its turn comes. -/
inductive Heaped (base : List Region) (old : List Entry) : List Entry → List Region → Prop
  | nil : Heaped base old [] base
  | cons {r : Region} {rest e es} : r.Heads e (es ++ old) →
      Heaped base old es (rewind e.below (r :: rest)) → Heaped base old (e :: es) (r :: rest)

/-- Every entry of the second list starts where one of the first does, and is no longer than that
one. -/
def Shortened (old old' : List Entry) : Prop :=
  ∀ x ∈ old', ∃ y ∈ old, x.block.addr = y.block.addr ∧ x.block.len ≤ y.block.len

/-- The first region is used beyond the ends of all entries there. -/
def Sunk (base : List Region) (old : List Entry) : Prop :=
  ∃ r ∈ base.head?, ∀ x ∈ old, r.buffer.Has x.block.addr →
    x.block.addr + x.block.len < r.base + r.used

variable {r p : Region} {base rest regions : List Region} {e x y y' : Entry}
  {es es' old old' newer older : List Entry} {i size : Nat}

theorem Tops.covers {mem : Slice} (h : r.Tops mem) : r.Covers mem := ⟨h.1, Nat.le_of_eq h.2⟩

theorem Heads.resize (h : r.Heads e older)
    (hwithin : e.block.addr - r.base + size ≤ r.capacity) :
    ({ r with used := e.block.addr - r.base + size } : Region).Heads
      ⟨⟨e.block.addr, size⟩, e.below⟩ older := by
  have hlow := h.tops.1
  refine ⟨⟨hlow, ?_⟩, hwithin, h.lower, h.under⟩
  simp only
  omega

theorem not_has_of_tail (hd : ((r :: rest).map (·.buffer)).Pairwise Slice.Disjoint)
    (hi : rest[i]? = some p) {a : Nat} (ha : p.buffer.Has a) : ¬ r.buffer.Has a := fun ha' =>
  (List.pairwise_cons.1 hd).1 _ (List.mem_map_of_mem (List.mem_of_getElem? hi)) a ha' ha

theorem rewind_sublist (below : Nat) (regions : List Region) :
    ((rewind below regions).map (·.buffer)).Sublist (regions.map (·.buffer)) := by
  cases regions with
  | nil => exact .refl _
  | cons r rest =>
    simp only [rewind]
    split
    · exact List.sublist_cons_self _ _
    · exact .refl _

/-- Rewinding the newest region moves the others at most by one place. -/
theorem rewind_set (below : Nat) (r : Region) (rest : List Region) (i : Nat) :
    ∃ j, (rewind below (r :: rest))[j]? = rest[i]? ∧
      ∀ p, rewind below (r :: rest.set i p) = (rewind below (r :: rest)).set j p := by
  have hnil : ∀ p, rest.set i p ≠ [] ↔ rest ≠ [] := fun p => by simp
  by_cases hgone : below = 0 ∧ rest ≠ []
  · refine ⟨i, by rw [rewind, if_pos hgone], fun p => ?_⟩
    rw [rewind, rewind, if_pos hgone, if_pos ⟨hgone.1, (hnil p).2 hgone.2⟩]
  · refine ⟨i + 1, by rw [rewind, if_neg hgone, List.getElem?_cons_succ], fun p => ?_⟩
    rw [rewind, rewind, if_neg hgone, if_neg fun hbad => hgone ⟨hbad.1, (hnil p).1 hbad.2⟩,
      List.set_cons_succ]

theorem mem_or_eq_of_replaced (h : x ∈ newer ++ y' :: older) :
    x ∈ newer ++ y :: older ∨ x = y' := by
  rcases List.mem_append.1 h with h | h
  · exact .inl (List.mem_append_left _ h)
  · rcases List.mem_cons.1 h with rfl | h
    · exact .inr rfl
    · exact .inl (List.mem_append_right _ (List.mem_cons_of_mem _ h))

namespace Shortened

theorem of_subset (h : old' ⊆ old) : Shortened old old' := fun x hx =>
  ⟨x, h hx, rfl, Nat.le_refl _⟩

theorem replace (hlen : size ≤ x.block.len) :
    Shortened (newer ++ x :: older) (newer ++ ⟨⟨x.block.addr, size⟩, x.below⟩ :: older) := by
  intro y hy
  rcases mem_or_eq_of_replaced hy with hy | rfl
  · exact ⟨y, hy, rfl, Nat.le_refl _⟩
  · exact ⟨x, List.mem_append_right _ List.mem_cons_self, rfl, hlen⟩

end Shortened

namespace Heaped

theorem uncons (h : Heaped base old (e :: es) regions) :
    ∃ r rest, regions = r :: rest ∧ r.Heads e (es ++ old) ∧
      Heaped base old es (rewind e.below regions) := by
  cases h with
  | cons hheads hback => exact ⟨_, _, rfl, hheads, hback⟩

/-- The way back can be broken off anywhere. -/
theorem split (h : Heaped base old (es ++ es') regions) :
    ∃ mid, Heaped mid (es' ++ old) es regions ∧ Heaped base old es' mid := by
  induction es generalizing regions with
  | nil => exact ⟨regions, .nil, h⟩
  | cons e es ih =>
    obtain ⟨r, rest, rfl, hheads, hback⟩ := h.uncons
    obtain ⟨mid, hupper, hlower⟩ := ih hback
    exact ⟨mid, .cons (List.append_assoc es es' old ▸ hheads) hupper, hlower⟩

theorem append {mid : List Region} (h : Heaped mid (es' ++ old) es regions)
    (h' : Heaped base old es' mid) : Heaped base old (es ++ es') regions := by
  induction h with
  | nil => exact h'
  | cons hheads _ ih =>
    rw [← List.append_assoc] at hheads
    exact .cons hheads ih

theorem ne_nil (h : Heaped base old es regions) (hdeep : es ≠ [] ∨ Sunk base old) :
    regions ≠ [] := by
  cases h with
  | nil =>
    obtain ⟨r, hr, _⟩ := hdeep.resolve_left fun hne => hne rfl
    rintro rfl
    cases hr
  | cons _ _ => exact List.cons_ne_nil _ _

theorem sublist (h : Heaped base old es regions) :
    (base.map (·.buffer)).Sublist (regions.map (·.buffer)) := by
  induction h with
  | nil => exact .refl _
  | cons _ _ ih => exact ih.trans (rewind_sublist _ _)

/-- It does not matter whether the older blocks lose some of their ends. -/
theorem shorten (h : Heaped base old es regions) (hold : Shortened old old') :
    Heaped base old' es regions := by
  induction h with
  | nil => exact .nil
  | cons hheads _ ih =>
    refine .cons { hheads with under := fun x hx hhas => ?_ } ih
    rcases List.mem_append.1 hx with hx | hx
    · exact hheads.under x (List.mem_append_left _ hx) hhas
    · obtain ⟨y, hy, haddr, hlen⟩ := hold x hx
      have hend := hheads.under y (List.mem_append_right _ hy) (haddr ▸ hhas)
      omega

/-- A region that none of the entries is on top of is still there at the end of the way, and any
other may be in its place. -/
theorem update (h : Heaped base old es regions)
    (hd : (regions.map (·.buffer)).Pairwise Slice.Disjoint) (hi : regions[i]? = some p)
    (hnot : ∀ e ∈ es, ¬ p.Tops e.block) :
    ∃ j, base[j]? = some p ∧ ∀ p' old', (∀ x ∈ old', x ∈ old ∨ p.buffer.Has x.block.addr) →
      Heaped (base.set j p') old' es (regions.set i p') := by
  induction h generalizing i with
  | nil => exact ⟨i, hi, fun _ _ _ => .nil⟩
  | @cons r rest e es hheads _ ih =>
    cases i with
    | zero =>
      obtain rfl : r = p := Option.some.inj hi
      exact absurd hheads.tops (hnot e List.mem_cons_self)
    | succ i =>
      obtain ⟨k, hk, hrewind⟩ := rewind_set e.below r rest i
      obtain ⟨j, hj, hset⟩ := ih (hd.sublist (rewind_sublist _ _)) (hk.trans hi)
        fun e he => hnot e (List.mem_cons_of_mem _ he)
      refine ⟨j, hj, fun p' old' hold => ?_⟩
      rw [List.set_cons_succ]
      refine .cons { hheads with under := fun x hx hhas => ?_ } (hrewind p' ▸ hset p' old' hold)
      rcases List.mem_append.1 hx with hx | hx
      · exact hheads.under x (List.mem_append_left _ hx) hhas
      · rcases hold x hx with hx | hthere
        · exact hheads.under x (List.mem_append_right _ hx) hhas
        · exact absurd hhas (not_has_of_tail hd hi hthere)

end Heaped

/-- The ends of blocks that are shortened, or are gone, lie still further down. -/
theorem Sunk.shorten (h : Sunk base old) (hold : Shortened old old') : Sunk base old' := by
  obtain ⟨r, hr, hunder⟩ := h
  refine ⟨r, hr, fun x hx hthere => ?_⟩
  obtain ⟨y, hy, haddr, hlen⟩ := hold x hx
  have hend := hunder y hy (haddr ▸ hthere)
  omega

theorem Sunk.not_tops (h : Sunk base old) (hx : x ∈ old) (hpos : 0 < x.block.len)
    (hwithin : ∀ r ∈ base, r.used ≤ r.capacity) : ∀ r ∈ base.head?, ¬ r.Tops x.block := by
  obtain ⟨r, hr, hunder⟩ := h
  intro r' hr' htop
  obtain rfl : r = r' := Option.some.inj (hr.symm.trans hr')
  have hhas := htop.covers.has hpos (hwithin r (List.mem_of_mem_head? hr))
  have hend := hunder x hx hhas
  have hend' := htop.2
  omega

end Region

open Region

variable {γ : Type}

/-- An allocator of bump regions whose regions can be rewound, settle their blocks, and ignore what
is not on top of the newest; `inv` is what it takes for them to answer. -/
structure Rewinding (A : Allocator γ) (adjust : Slice → Nat → Nat → Act γ Answer)
    (regions : γ → List Region) (kept : List Entry → γ × Machine → Prop)
    (allowed : Breakdown → Prop) (put : γ → Nat → Region → γ) (inv : γ × Machine → Prop) :
    Prop where
  unwinding : Unwinding A adjust regions kept allowed
  settling : Settling A adjust regions kept put
  steady : Steady A adjust inv
  addressable {s} {e : Entry} {es} : kept (e :: es) s → inv s → ∀ r ∈ regions s.1, r.Addressable
  ignores {s} {e : Entry} {es} : kept (e :: es) s → inv s →
    (∀ r ∈ (regions s.1).head?, ¬ r.Tops e.block) → Ignores A e.block s

/-- The entries that can be taken back, newest first, and those that stay below them. -/
structure Heap (regions : γ → List Region) (kept : List Entry → γ × Machine → Prop)
    (inv : γ × Machine → Prop) (base : List Region) (es old : List Entry) (s : γ × Machine) :
    Prop where
  kept : kept (es ++ old) s
  inv : inv s
  heaped : Heaped base old es (regions s.1)

variable {A : Allocator γ} {adjust : Slice → Nat → Nat → Act γ Answer} {regions : γ → List Region}
  {kept : List Entry → γ × Machine → Prop} {allowed : Breakdown → Prop}
  {put : γ → Nat → Region → γ} {inv : γ × Machine → Prop} {s t : γ × Machine} {e x : Entry}
  {es old newer older : List Entry} {base : List Region} {size align : Nat} {block : Slice}

/-- A block that is resized without being moved: where it is on top of its region, this is used up
to its end again, and where it is buried it does not grow and nothing else changes. -/
theorem Settling.resize_inPlace (h : Settling A adjust regions kept put) (hk : kept (e :: es) s)
    (haddr : ∀ r ∈ regions s.1, r.Addressable)
    (ha : A.resize e.block size align s = .ok (.ok block, t)) (hsame : block.addr = e.block.addr) :
    block = ⟨e.block.addr, size⟩ ∧ kept (⟨block, e.below⟩ :: es) t ∧
      ((∃ (i : Nat) (r : Region), (regions s.1)[i]? = some r ∧ r.Tops e.block ∧
          regions t.1 = (regions s.1).set i { r with used := e.block.addr - r.base + size }) ∨
        Buried (regions s.1) e.block ∧ size ≤ e.block.len ∧ regions t.1 = regions s.1) := by
  have hnull := h.stacking.not_null hk List.mem_cons_self
  have hisNull := Slice.isNull_eq_false.2 hnull
  have hs : size ≠ 0 := by
    rintro rfl
    obtain ⟨hans, _⟩ := h.stacking.orderly.resize_zero_ok hisNull ha
    cases hans
    exact hnull hsame.symm
  obtain ⟨_, _, hkept⟩ := h.stacking.resize hk hs ha
  rw [if_pos hsame] at hkept
  obtain ⟨i, ⟨r, hi, hcov⟩, honly⟩ := (h.placed hk).existsUnique_covers List.mem_cons_self
    (h.stacking.nonempty hk e List.mem_cons_self)
  rw [h.stacking.resize_eq] at ha
  rcases resizeBy_ok hisNull hs ha with ⟨_, hbad, _⟩ | ⟨⟨k, hpow⟩, hadj⟩
  · cases hbad
  obtain ⟨event, heq⟩ := h.adjust_eq size k hk haddr hi hcov
  rw [hpow, heq] at hadj
  by_cases hstays : r.Stays e.block size (2 ^ k)
  · rw [if_pos hstays] at hadj
    cases hadj
    have hput : regions (put s.1 i (r.resized e.block size)) =
        (regions s.1).set i (r.resized e.block size) := h.regions_put hi
    refine ⟨rfl, hkept, ?_⟩
    by_cases htop : r.Tops e.block
    · rw [Region.resized, if_pos htop.2] at hput ⊢
      exact .inl ⟨i, r, hi, htop, hput⟩
    · have hends : ¬ e.block.addr + e.block.len = r.base + r.used := fun hbad =>
        htop ⟨hcov.1, hbad⟩
      obtain ⟨hlt, hget⟩ := List.getElem?_eq_some_iff.1 hi
      rw [Region.resized, if_neg hends] at hput ⊢
      refine .inr ⟨fun q hq hbad => ?_, hstays.2.resolve_right fun hroom => hends hroom.1, ?_⟩
      · obtain ⟨j, hj⟩ := List.mem_iff_getElem?.1 hq
        obtain rfl : j = i := honly j ⟨q, hj, hbad.covers⟩
        exact htop (Option.some.inj (hi.symm.trans hj) ▸ hbad)
      · rw [hput, ← hget, List.set_getElem_self]
  · rw [if_neg hstays] at hadj
    exact absurd hsame (h.stacking.relocate hk hadj).2.2.1

/-- A block that was just handed out heads the newest region. -/
theorem Unwinding.heads (h : Unwinding A adjust regions kept allowed)
    (hplaced : ∀ {es s}, kept es s → Placed (regions s.1) s.2.memory es) (hk : kept es s)
    (ha : A.alloc size align s = .ok (.ok block, t)) :
    ∃ r rest, regions t.1 = r :: rest ∧ r.Heads ⟨block, usedAt (regions s.1) block.addr⟩ es := by
  obtain ⟨_, _, hkept, _⟩ := h.stacking.alloc hk ha
  obtain ⟨r, rest, n, ht, htop, hhas, _, hcase⟩ := h.put hk ha
  have hafter := hplaced hkept
  have hmem : ({ r with used := n } : Region) ∈ regions t.1 := by
    rw [ht]
    exact List.mem_cons_self
  refine ⟨{ r with used := n }, rest, ht, htop, hafter.within hmem, ?_, fun x hx hthere => ?_⟩
  · obtain ⟨top, hsound, hall⟩ := hafter.sound _ hmem
    exact hsound.lower _ (hall _ List.mem_cons_self hhas)
  · have hbefore := hplaced hk
    rcases hcase with hs | ⟨hs, _⟩
    · rw [hs, usedAt_cons hhas]
      have hnewest : r ∈ regions s.1 := hs ▸ List.mem_cons_self
      exact (hbefore.covers hnewest hx hthere).2
    · -- no older block lies in a new region
      obtain ⟨q, hq, hthere'⟩ := hbefore.home x hx
      rw [hs] at hq
      obtain ⟨i, hi⟩ := List.mem_iff_getElem?.1 hq
      exact absurd hthere (not_has_of_tail (ht ▸ hafter.apart) hi hthere')

namespace Heap

/-- What leaves the entries and the regions alone changes nothing. -/
theorem mono (h : Heap regions kept inv base es old s) (hk : kept (es ++ old) t) (hi : inv t)
    (hr : regions t.1 = regions s.1) : Heap regions kept inv base es old t :=
  ⟨hk, hi, hr ▸ h.heaped⟩

theorem alloc (hA : Rewinding A adjust regions kept allowed put inv)
    (h : Heap regions kept inv base es old s) (hne : regions s.1 ≠ [])
    (ha : A.alloc size align s = .ok (.ok block, t)) :
    Heap regions kept inv base (⟨block, usedAt (regions s.1) block.addr⟩ :: es) old t := by
  obtain ⟨_, _, hkept, _⟩ := hA.unwinding.stacking.alloc h.kept ha
  obtain ⟨r, rest, ht, hheads⟩ := hA.unwinding.heads hA.settling.placed h.kept ha
  obtain ⟨hsame, _⟩ := hA.unwinding.rewind_put h.kept ha rfl
  refine ⟨hkept, hA.steady.alloc h.inv ha, ?_⟩
  have hback := hsame hne
  rw [ht] at hback ⊢
  refine .cons hheads ?_
  rw [hback]
  exact h.heaped

theorem free (hA : Rewinding A adjust regions kept allowed put inv)
    (h : Heap regions kept inv base (x :: es) old s) (hf : A.free x.block s = .ok ((), t)) :
    Heap regions kept inv base es old t := by
  obtain ⟨r, rest, hs, hheads, hback⟩ := h.heaped.uncons
  refine ⟨(hA.unwinding.stacking.free h.kept hf).1, hA.steady.free h.inv hf, ?_⟩
  rw [hA.unwinding.pop h.kept hs hheads.tops hf]
  exact hback

/-- Entries of the heap lie apart from the older ones, so no region that one of them is on top of
is topped by another. -/
theorem not_tops (hA : Rewinding A adjust regions kept allowed put inv)
    (hk : kept (es ++ old) s) {p : Region} (he : e ∈ es) (hx : x ∈ old) (htop : p.Tops x.block) :
    ¬ p.Tops e.block := by
  have hstack := hA.settling.stacking
  have hd := (List.pairwise_append.1 (hstack.apart hk)).2.2 e he x hx
  exact htop.not_of_disjoint hd.symm (hstack.nonempty hk x (List.mem_append_right _ hx))
    (hstack.nonempty hk e (List.mem_append_left _ he))

/-- The block of an entry on the heap is resized where it is on top: its region is used up to its
end again. -/
theorem resize_top (hA : Rewinding A adjust regions kept allowed put inv)
    (h : Heap regions kept inv base (newer ++ x :: older) old s)
    (hkept : kept ((newer ++ ⟨⟨x.block.addr, size⟩, x.below⟩ :: older) ++ old) t) (hi : inv t)
    {i : Nat} {p : Region} (hp : (regions s.1)[i]? = some p) (htop : p.Tops x.block)
    (ht : regions t.1 = (regions s.1).set i { p with used := x.block.addr - p.base + size }) :
    Heap regions kept inv base (newer ++ ⟨⟨x.block.addr, size⟩, x.below⟩ :: older) old t := by
  have hk : kept (newer ++ x :: (older ++ old)) s :=
    List.append_assoc newer (x :: older) old ▸ h.kept
  have hplaced := hA.settling.placed hk
  have hpos := hA.settling.stacking.nonempty hk x (List.mem_append_right _ List.mem_cons_self)
  have hthere : p.buffer.Has x.block.addr :=
    htop.covers.has hpos (hplaced.within (List.mem_of_getElem? hp))
  obtain ⟨mid, hupper, hmid⟩ := h.heaped.split
  obtain ⟨r, rest, rfl, hheads, hback⟩ := hmid.uncons
  obtain ⟨j, hj, hset⟩ := hupper.update hplaced.apart hp
    fun e he => not_tops hA hk he List.mem_cons_self htop
  cases j with
  | succ j =>
    exact absurd (hheads.tops.covers.has hpos hheads.within)
      (not_has_of_tail (hplaced.apart.sublist hupper.sublist) hj hthere)
  | zero =>
    -- it is the region that the block heads
    obtain rfl : r = p := Option.some.inj hj
    have hmem : ({ r with used := x.block.addr - r.base + size } : Region) ∈ regions t.1 := by
      rw [ht]
      exact List.mem_set (List.getElem?_eq_some_iff.1 hp).1 _
    have hheads' := hheads.resize ((hA.settling.placed hkept).within hmem)
    refine ⟨hkept, hi, ?_⟩
    rw [ht]
    refine (hset _ (⟨⟨x.block.addr, size⟩, x.below⟩ :: older ++ old) ?_).append
      (.cons hheads' hback)
    rintro y (_ | ⟨_, hy⟩)
    · exact .inr hthere
    · exact .inl (List.mem_cons_of_mem _ hy)

/-- If a block on the heap is not on top of its region and shrinks, the heap ends above it. -/
theorem sink (h : Heap regions kept inv base (newer ++ x :: older) old s)
    (hkept : kept (newer ++ (⟨⟨x.block.addr, size⟩, x.below⟩ :: older ++ old)) t) (hi : inv t)
    (hlt : size < x.block.len) (hsame : regions t.1 = regions s.1) : ∃ base',
      Heap regions kept inv base' newer (⟨⟨x.block.addr, size⟩, x.below⟩ :: older ++ old) t ∧
        Sunk base' (⟨⟨x.block.addr, size⟩, x.below⟩ :: older ++ old) := by
  obtain ⟨mid, hupper, hmid⟩ := h.heaped.split
  obtain ⟨r, rest, rfl, hheads, _⟩ := hmid.uncons
  have hshort : Shortened (x :: older ++ old) (⟨⟨x.block.addr, size⟩, x.below⟩ :: older ++ old) :=
    @Shortened.replace x [] (older ++ old) size (Nat.le_of_lt hlt)
  refine ⟨r :: rest, ⟨hkept, hi, hsame ▸ hupper.shorten hshort⟩, r, rfl, ?_⟩
  have hend := hheads.tops.2
  have hlower := hheads.lower
  rintro y (_ | ⟨_, hy⟩) hthere
  · simp only
    omega
  · have hunder := hheads.under y hy hthere
    omega

/-- A block on the heap is resized where it is, and stays on the heap unless it is buried and
shrinks. -/
theorem resize (hA : Rewinding A adjust regions kept allowed put inv)
    (h : Heap regions kept inv base (newer ++ x :: older) old s)
    (ha : A.resize x.block size align s = .ok (.ok block, t)) (haddr : block.addr = x.block.addr) :
    ¬ (size < x.block.len ∧ Buried (regions s.1) x.block) ∧
        Heap regions kept inv base (newer ++ ⟨block, x.below⟩ :: older) old t ∨
      (size < x.block.len ∧ Buried (regions s.1) x.block) ∧ ∃ base',
        Heap regions kept inv base' newer (⟨block, x.below⟩ :: older ++ old) t ∧
          Sunk base' (⟨block, x.below⟩ :: older ++ old) := by
  have hstack := hA.settling.stacking
  have hassoc : ∀ y : Entry, (newer ++ y :: older) ++ old = newer ++ y :: (older ++ old) :=
    fun y => List.append_assoc _ _ _
  have hfirst := hstack.perm List.perm_middle (hassoc x ▸ h.kept)
  obtain ⟨rfl, hkept, hcase⟩ :=
    hA.settling.resize_inPlace hfirst (hA.addressable hfirst h.inv) ha haddr
  replace hkept := hstack.perm List.perm_middle.symm hkept
  have hi := hA.steady.resize h.inv ha
  rcases hcase with ⟨i, p, hp, htop, ht⟩ | ⟨hburied, hle, hsame⟩
  · exact .inl ⟨fun hbad => hbad.2 p (List.mem_of_getElem? hp) htop,
      h.resize_top hA (hassoc _ ▸ hkept) hi hp htop ht⟩
  rcases Nat.lt_or_eq_of_le hle with hlt | rfl
  · exact .inr ⟨⟨hlt, hburied⟩, h.sink hkept hi hlt hsame⟩
  · exact .inl ⟨fun hbad => absurd hbad.1 (Nat.lt_irrefl _), h.mono (hassoc _ ▸ hkept) hi hsame⟩

/-- An older block is resized where it is on top. That is not where the heap ends if this has
sunk. -/
theorem resize_held_top (hA : Rewinding A adjust regions kept allowed put inv)
    (h : Heap regions kept inv base es (newer ++ x :: older) s)
    (hkept : kept (es ++ (newer ++ ⟨⟨x.block.addr, size⟩, x.below⟩ :: older)) t) (hi : inv t)
    {i : Nat} {p : Region} (hp : (regions s.1)[i]? = some p) (htop : p.Tops x.block)
    (ht : regions t.1 = (regions s.1).set i { p with used := x.block.addr - p.base + size }) :
    ∃ base', Heap regions kept inv base' es
        (newer ++ ⟨⟨x.block.addr, size⟩, x.below⟩ :: older) t ∧
      (Sunk base (newer ++ x :: older) →
        Sunk base' (newer ++ ⟨⟨x.block.addr, size⟩, x.below⟩ :: older)) := by
  have hplaced := hA.settling.placed h.kept
  have hx : x ∈ newer ++ x :: older := List.mem_append_right _ List.mem_cons_self
  have hthere : p.buffer.Has x.block.addr :=
    htop.covers.has (hA.settling.stacking.nonempty h.kept x (List.mem_append_right _ hx))
      (hplaced.within (List.mem_of_getElem? hp))
  obtain ⟨j, hj, hset⟩ := h.heaped.update hplaced.apart hp
    fun e he => not_tops hA h.kept he hx htop
  refine ⟨base.set j { p with used := x.block.addr - p.base + size }, ⟨hkept, hi, ?_⟩, ?_⟩
  · rw [ht]
    refine hset _ _ fun y hy => (mem_or_eq_of_replaced hy).imp_right ?_
    rintro rfl
    exact hthere
  · rintro ⟨r, hr, hunder⟩
    obtain ⟨rest, rfl⟩ := List.head?_eq_some_iff.1 hr
    cases j with
    | zero =>
      obtain rfl : r = p := Option.some.inj hj
      exact absurd htop.2 (Nat.ne_of_lt (hunder x hx hthere))
    | succ j =>
      refine ⟨r, rfl, fun y hy hhas => ?_⟩
      rcases mem_or_eq_of_replaced hy with hy | rfl
      · exact hunder y hy hhas
      · exact absurd hhas (not_has_of_tail (hplaced.apart.sublist h.heaped.sublist) hj hthere)

theorem resize_held (hA : Rewinding A adjust regions kept allowed put inv)
    (h : Heap regions kept inv base es (newer ++ x :: older) s)
    (ha : A.resize x.block size align s = .ok (.ok block, t)) (haddr : block.addr = x.block.addr) :
    ∃ base', Heap regions kept inv base' es (newer ++ ⟨block, x.below⟩ :: older) t ∧
      (Sunk base (newer ++ x :: older) → Sunk base' (newer ++ ⟨block, x.below⟩ :: older)) := by
  have hstack := hA.settling.stacking
  have hassoc : ∀ y : Entry, (es ++ newer) ++ y :: older = es ++ (newer ++ y :: older) :=
    fun y => List.append_assoc _ _ _
  have hfirst := hstack.perm List.perm_middle (hassoc x ▸ h.kept)
  obtain ⟨rfl, hkept, hcase⟩ :=
    hA.settling.resize_inPlace hfirst (hA.addressable hfirst h.inv) ha haddr
  replace hkept := hassoc _ ▸ hstack.perm List.perm_middle.symm hkept
  have hi := hA.steady.resize h.inv ha
  rcases hcase with ⟨i, p, hp, htop, ht⟩ | ⟨_, hle, hsame⟩
  · exact h.resize_held_top hA hkept hi hp htop ht
  · have hshort : Shortened (newer ++ x :: older)
        (newer ++ ⟨⟨x.block.addr, size⟩, x.below⟩ :: older) := .replace hle
    exact ⟨base, ⟨hkept, hi, hsame ▸ h.heaped.shorten hshort⟩, fun hsunk => hsunk.shorten hshort⟩

theorem buried (hA : Rewinding A adjust regions kept allowed put inv)
    (h : Heap regions kept inv base es old s) (hdeep : es ≠ [] ∨ Sunk base old) (hx : x ∈ old) :
    ∀ r ∈ (regions s.1).head?, ¬ r.Tops x.block := by
  intro r hr htop
  cases es with
  | nil =>
    obtain rfl : base = regions s.1 := by
      cases h.heaped
      rfl
    have hpos := hA.settling.stacking.nonempty h.kept x hx
    have hsunk := hdeep.resolve_left fun hne => hne rfl
    exact hsunk.not_tops hx hpos (fun r hr => (hA.settling.placed h.kept).within hr) r hr htop
  | cons e es =>
    obtain ⟨r', rest, hs, hheads, _⟩ := h.heaped.uncons
    obtain rfl : r' = r := Option.some.inj ((congrArg List.head? hs).symm.trans hr)
    exact not_tops hA h.kept List.mem_cons_self hx htop hheads.tops

theorem ignores (hA : Rewinding A adjust regions kept allowed put inv)
    (h : Heap regions kept inv base es old s) (hdeep : es ≠ [] ∨ Sunk base old) (hx : x ∈ old) :
    Ignores A x.block s := by
  obtain ⟨newer, older, rfl⟩ := List.append_of_mem hx
  have hk := hA.settling.stacking.perm List.perm_middle
    ((List.append_assoc es newer (x :: older)).symm ▸ h.kept)
  exact hA.ignores hk h.inv (h.buried hA hdeep hx)

theorem free_held (hA : Rewinding A adjust regions kept allowed put inv)
    (h : Heap regions kept inv base es (newer ++ x :: older) s)
    (hdeep : es ≠ [] ∨ Sunk base (newer ++ x :: older)) (hf : A.free x.block s = .ok ((), t)) :
    Heap regions kept inv base es (newer ++ older) t := by
  have hstack := hA.settling.stacking
  have hx : x ∈ newer ++ x :: older := List.mem_append_right _ List.mem_cons_self
  have hfirst := hstack.perm List.perm_middle
    ((List.append_assoc es newer (x :: older)).symm ▸ h.kept)
  have hkept := (hstack.free hfirst hf).1
  rw [List.append_assoc] at hkept
  obtain ⟨events, hsame⟩ := h.ignores hA hdeep hx
  cases hf.symm.trans hsame
  have hsub := ((List.sublist_cons_self x older).append_left newer).subset
  exact ⟨hkept, hA.steady.free h.inv hf, h.heaped.shorten (.of_subset hsub)⟩

end Heap

/-! ### Fixed allocators and arenas -/

theorem Fixed.rewinding (buffer : Slice) :
    Rewinding allocator Fixed.adjust (fun r => [r]) Kept (fun _ => False) (fun _ _ r => r)
      fun s : Region × Machine => s.1.buffer = buffer where
  unwinding := unwinding
  settling := settling
  steady := steady_buffer buffer
  addressable hk _ _ hr := List.mem_singleton.1 hr ▸ hk.addressable
  ignores hk _ htop := free_other hk.addressable (stacking.bounded hk _ List.mem_cons_self)
    (htop _ rfl)

theorem Arena.rewinding {β : Type} {B : Allocator β} {fit : Nat → Nat → Slice → Prop}
    {holds : List Slice → β × Machine → Prop} (hB : Supply B fit holds) (hC : Custody B holds) :
    Rewinding (allocator B) (Arena.adjust B) (fun l => l.1.chunks.map (·.region)) (Kept holds)
      (B.Breaks fun _ => True) putRegion Roomy where
  unwinding := unwinding hB hC
  settling := settling hB hC
  steady := steady_roomy B
  addressable := by
    rintro s e es hk hroom r hr
    obtain ⟨chunk, hc, rfl⟩ := List.mem_map.1 hr
    exact hk.addressable hB hroom chunk hc
  ignores := by
    rintro s e es hk hroom htop
    refine free_other (fun chunk hc => hk.addressable hB hroom chunk (List.mem_of_mem_head? hc))
      (hk.piled.bounded List.mem_cons_self) ?_
    intro chunk hc
    exact htop chunk.region (List.head?_map ▸ Option.mem_map_of_mem _ hc)

end AllocChain
