import AllocChain.Proofs.Breakdown
import AllocChain.Proofs.Bump.Nested
import AllocChain.Proofs.Bump.Top
import AllocChain.Proofs.Lease

/-!
Why blocks that are taken back in the reverse order leave no trace in bump regions. The entries of
these blocks say how to get back: rewind the newest region to what the newest entry has below it,
then go on with the next (`Unwinds`). Requests put a step in front of this way back, frees take one,
and nothing else that a client does with its newest block changes it (`Unwinding.descent`). So once
the last block is gone the regions are those at the start.
-/

namespace AllocChain

namespace Region

/-- The regions after the newest was rewound to `below`; one that is then unused goes, unless it is
the only one. -/
def rewind (below : Nat) : List Region → List Region
  | [] => []
  | r :: older => if below = 0 ∧ older ≠ [] then older else { r with used := below } :: older

/-- Taking the entries back, each from the top of the newest region, leads to `base`. -/
def Unwinds (base : List Region) : List Entry → List Region → Prop
  | [], regions => regions = base
  | e :: es, regions =>
    (∃ r ∈ regions.head?, r.Tops e.block) ∧ Unwinds base es (rewind e.below regions)

variable {r : Region} {older base regions : List Region} {e : Entry} {es : List Entry}

/-- How much was used before the rewinding does not matter. -/
theorem rewind_used (below n : Nat) (r : Region) (older : List Region) :
    rewind below ({ r with used := n } :: older) = rewind below (r :: older) := rfl

/-- Where there was more than nothing, rewinding to what is used changes nothing. -/
theorem rewind_self (h : older ≠ [] → 0 < r.used) : rewind r.used (r :: older) = r :: older := by
  refine if_neg ?_
  rintro ⟨hzero, hne⟩
  exact absurd hzero (Nat.pos_iff_ne_zero.1 (h hne))

theorem rewind_only (below : Nat) (r : Region) : rewind below [r] = [{ r with used := below }] :=
  if_neg fun h => h.2 rfl

/-- A new region goes as it has come. -/
theorem rewind_zero (h : older ≠ []) : rewind 0 (r :: older) = older := if_pos ⟨rfl, h⟩

theorem usedAt_cons {addr : Nat} (h : r.buffer.Has addr) : usedAt (r :: older) addr = r.used := by
  simp [usedAt, h]

/-- Every step back takes one region at most. -/
theorem Unwinds.length_le (h : Unwinds base es regions) : base.length ≤ regions.length := by
  induction es generalizing regions with
  | nil => exact Nat.le_of_eq (congrArg List.length h).symm
  | cons e es ih =>
    refine Nat.le_trans (ih h.2) ?_
    cases regions with
    | nil => exact Nat.le_refl _
    | cons r older =>
      rw [rewind]
      split <;> simp

theorem Unwinds.ne_nil (h : Unwinds base es regions) (hbase : base ≠ []) : regions ≠ [] := by
  cases es with
  | nil =>
    rw [show regions = base from h]
    exact hbase
  | cons e es =>
    obtain ⟨⟨r, hr, _⟩, _⟩ := h
    rintro rfl
    cases hr

theorem Unwinds.uncons (h : Unwinds base (e :: es) regions) :
    ∃ r older, regions = r :: older ∧ r.Tops e.block ∧
      Unwinds base es (rewind e.below regions) := by
  obtain ⟨⟨r, hr, htop⟩, hrest⟩ := h
  obtain ⟨older, hs⟩ := List.head?_eq_some_iff.1 hr
  exact ⟨r, older, hs, htop, hrest⟩

end Region

open Region Memory

variable {γ : Type}

/-- Whatever is below it and whatever has been written since, a request on top of the region is met
by the block. -/
def Serves (A : Allocator γ) (regions : γ → List Region) (r : Region) (grant : Grant) : Prop :=
  ∀ s older, regions s.1 = r :: older →
    ∃ t, A.alloc grant.size grant.align s = .ok (.ok grant.block, t)

/-- What an allocator of bump regions does to the regions themselves. A block is put on the newest
region or on a new one; what tops the newest region is taken back by rewinding, which breaks off
only as `allowed` admits. -/
structure Unwinding (A : Allocator γ) (adjust : Slice → Nat → Nat → Act γ Answer)
    (regions : γ → List Region) (kept : List Entry → γ × Machine → Prop)
    (allowed : Breakdown → Prop) : Prop where
  stacking : Stacking A adjust regions kept
  busy {es s r older} : kept es s → regions s.1 = r :: older → older ≠ [] → 0 < r.used
  put {es s size align block t} : kept es s → A.alloc size align s = .ok (.ok block, t) →
    ∃ r older n, regions t.1 = { r with used := n } :: older ∧
      ({ r with used := n } : Region).Tops block ∧ r.buffer.Has block.addr ∧
      Serves A regions r ⟨size, align, block⟩ ∧
      (regions s.1 = r :: older ∨
        regions s.1 = older ∧ r.used = 0 ∧ ∀ q ∈ older, ¬ q.buffer.Has block.addr)
  put_refused {es s size align e t} : kept es s → A.alloc size align s = .ok (.error e, t) →
    regions t.1 = regions s.1
  pop {es s e r older t} : kept (e :: es) s → regions s.1 = r :: older → r.Tops e.block →
    A.free e.block s = .ok ((), t) → regions t.1 = rewind e.below (regions s.1)
  pop_breaksOnly {es s e r older} : kept (e :: es) s → regions s.1 = r :: older →
    r.Tops e.block → (A.free e.block).BreaksOnly allowed s
  regrow {es s e r older size align a t} : kept (e :: es) s → regions s.1 = r :: older →
    r.Tops e.block → adjust e.block size align s = .ok (a, t) →
    (∃ n, regions t.1 = { r with used := n } :: older ∧
        ({ r with used := n } : Region).Tops ⟨e.block.addr, size⟩) ∨
      relocate A.alloc A.free e.block size align s = .ok (a, t)

/-- How a nested client gets back to where it started. `es` are the entries of its stack, and `old`
those of the blocks that it held before; `base` are the regions that unwinding leads to. -/
structure Descent (A : Allocator γ) (regions : γ → List Region)
    (kept : List Entry → γ × Machine → Prop) (old : List Entry) (start : γ × Machine)
    (first : Option Grant) (es : List Entry) (base : List Region) (s : γ × Machine) : Prop where
  kept : kept (es ++ old) s
  unwinds : Unwinds base es (regions s.1)
  unasked : first = none → es = []
  same : regions start.1 ≠ [] ∨ first = none → base = regions start.1
  fresh : regions start.1 = [] → first ≠ none → ∃ r, base = [r] ∧ r.used = 0
  again : ∀ grant ∈ first, (∃ r older, base = r :: older ∧ Serves A regions r grant) ∨
    (∀ r ∈ base, ¬ r.buffer.Has grant.block.addr) ∧ ∃ g, base.length < (regions g).length

namespace Unwinding

variable {A : Allocator γ} {adjust : Slice → Nat → Nat → Act γ Answer} {regions : γ → List Region}
  {kept : List Entry → γ × Machine → Prop} {allowed : Breakdown → Prop} {old es : List Entry}
  {e : Entry} {start s t : γ × Machine} {first : Option Grant} {stack : List Slice}
  {base : List Region} {size align : Nat} {block : Slice}

/-- Rewinding to what was used before a request leads back to the regions that there were, or to a
new one without blocks where there was none. -/
theorem rewind_put (h : Unwinding A adjust regions kept allowed) (hk : kept es s)
    (ha : A.alloc size align s = .ok (.ok block, t)) {back : List Region}
    (hback : back = rewind (usedAt (regions s.1) block.addr) (regions t.1)) :
    (regions s.1 ≠ [] → back = regions s.1) ∧
      (regions s.1 = [] → ∃ r, back = [r] ∧ r.used = 0) ∧
      ((∃ r older, back = r :: older ∧ Serves A regions r ⟨size, align, block⟩) ∨
        (∀ r ∈ back, ¬ r.buffer.Has block.addr) ∧ ∃ g, back.length < (regions g).length) := by
  obtain ⟨r, older, n, ht, _, hhas, hserves, hs | ⟨hs, hzero, hnone⟩⟩ := h.put hk ha
  · -- the newest region served the request: it is rewound to where it was
    rw [ht, rewind_used, hs, usedAt_cons hhas, rewind_self (h.busy hk hs)] at hback
    rw [hs, hback]
    exact ⟨fun _ => rfl, fun hnil => absurd hnil (List.cons_ne_nil _ _),
      .inl ⟨r, older, rfl, hserves⟩⟩
  · -- a new region did: it goes again, unless there is no other
    have hmore : ∃ g, older.length < (regions g).length := by
      refine ⟨t.1, ?_⟩
      rw [ht]
      exact Nat.lt_succ_self _
    rw [ht, rewind_used, hs, usedAt_eq_zero hnone] at hback
    rw [hs]
    by_cases hnil : older = []
    · have hone : back = [r] := by
        rw [hback, hnil, ← hzero]
        exact rewind_self fun hne => absurd rfl hne
      exact ⟨fun hne => absurd hnil hne, fun _ => ⟨r, hone, hzero⟩, .inl ⟨r, [], hone, hserves⟩⟩
    · rw [rewind_zero hnil] at hback
      rw [hback]
      exact ⟨fun _ => rfl, fun hbad => absurd hbad hnil, .inr ⟨hnone, hmore⟩⟩

/-- A block that is resized without being moved tops the newest region as before. -/
theorem resize_regrown (h : Unwinding A adjust regions kept allowed) (hk : kept (e :: es) s)
    {r : Region} {older : List Region} (hr : regions s.1 = r :: older) (htop : r.Tops e.block)
    (ha : A.resize e.block size align s = .ok (.ok block, t)) (haddr : block.addr = e.block.addr) :
    kept (⟨block, e.below⟩ :: es) t ∧ ∃ n, regions t.1 = { r with used := n } :: older ∧
      ({ r with used := n } : Region).Tops block := by
  have hnull := h.stacking.not_null hk List.mem_cons_self
  by_cases hs : size = 0
  · subst hs
    obtain ⟨hans, _⟩ := h.stacking.orderly.resize_zero_ok (Slice.isNull_eq_false.2 hnull) ha
    cases hans
    exact absurd haddr.symm hnull
  rw [h.stacking.resize_eq] at ha
  rcases resizeBy_ok (Slice.isNull_eq_false.2 hnull) hs ha with ⟨_, hbad, _⟩ | ⟨hpow, hadj⟩
  · cases hbad
  have hmoved : ∀ {P : Prop}, relocate A.alloc A.free e.block size (normalizeAlign align) s =
      .ok (.ok block, t) → P := fun hreloc =>
    absurd haddr (h.stacking.relocate hk hreloc).2.2.1
  rcases h.stacking.adjust hk (Nat.pos_of_ne_zero hs) hpow hadj with ⟨hans, _, hkept, _⟩ | hreloc
  · cases hans
    rcases h.regrow hk hr htop hadj with hgrown | hreloc
    · exact ⟨hkept, hgrown⟩
    · exact hmoved hreloc
  · exact hmoved hreloc

theorem resize_refused (h : Unwinding A adjust regions kept allowed) (hk : kept (e :: es) s)
    {err : AllocError} (ha : A.resize e.block size align s = .ok (.error err, t)) :
    kept (e :: es) t ∧ regions t.1 = regions s.1 := by
  have hnull := Slice.isNull_eq_false.2 (h.stacking.not_null hk List.mem_cons_self)
  by_cases hs : size = 0
  · subst hs
    obtain ⟨hbad, _⟩ := h.stacking.orderly.resize_zero_ok hnull ha
    cases hbad
  refine ⟨h.stacking.resize_refused hk hs ha, ?_⟩
  rw [h.stacking.resize_eq] at ha
  rcases resizeBy_ok hnull hs ha with ⟨_, _, rfl⟩ | ⟨hpow, hadj⟩
  · rfl
  rcases h.stacking.adjust hk (Nat.pos_of_ne_zero hs) hpow hadj with ⟨hbad, _⟩ | hreloc
  · cases hbad
  rcases relocate_ok hreloc with ⟨_, _, halloc⟩ | ⟨_, _, hbad, _, _⟩
  · exact h.put_refused hk halloc
  · cases hbad

end Unwinding

/-! ### One deed after the other -/

namespace Descent

variable {A : Allocator γ} {adjust : Slice → Nat → Nat → Act γ Answer} {regions : γ → List Region}
  {kept : List Entry → γ × Machine → Prop} {allowed : Breakdown → Prop} {old es : List Entry}
  {e : Entry} {start s t : γ × Machine} {first : Option Grant} {stack : List Slice}
  {base : List Region} {size align : Nat} {block : Slice}

theorem initial (hk : kept old start) :
    Descent A regions kept old start none [] (regions start.1) start where
  kept := hk
  unwinds := rfl
  unasked _ := rfl
  same _ := rfl
  fresh _ hbad := absurd rfl hbad
  again := by simp

theorem base_ne_nil (h : Descent A regions kept old start first es base s) (hne : first ≠ none) :
    base ≠ [] := by
  by_cases hnil : regions start.1 = []
  · obtain ⟨r, rfl, _⟩ := h.fresh hnil hne
    exact List.cons_ne_nil _ _
  · rw [h.same (.inl hnil)]
    exact hnil

theorem mono (h : Descent A regions kept old start first es base s) (hk : kept (es ++ old) t)
    (hr : regions t.1 = regions s.1) : Descent A regions kept old start first es base t :=
  { h with kept := hk, unwinds := hr ▸ h.unwinds }

/-- A request puts a step in front of the way back. -/
theorem alloc (hA : Unwinding A adjust regions kept allowed)
    (h : Descent A regions kept old start first es base s)
    (ha : A.alloc size align s = .ok (.ok block, t)) :
    ∃ base', Descent A regions kept old start (first.or (some ⟨size, align, block⟩))
      (⟨block, usedAt (regions s.1) block.addr⟩ :: es) base' t := by
  obtain ⟨_, _, hkept, _⟩ := hA.stacking.alloc h.kept ha
  obtain ⟨r, older, n, ht, htop, _⟩ := hA.put h.kept ha
  obtain ⟨hsame, hfresh, hagain⟩ := hA.rewind_put h.kept ha rfl
  have hhead : ∃ r ∈ (regions t.1).head?, r.Tops block := by
    rw [ht]
    exact ⟨_, rfl, htop⟩
  cases first with
  | none =>
    -- the first request that is met decides where the way back ends
    obtain rfl : es = [] := h.unasked rfl
    have hs : regions s.1 = regions start.1 := h.unwinds.trans (h.same (.inr rfl))
    refine ⟨_, hkept, ⟨hhead, rfl⟩, by simp, ?_, fun hnil _ => hfresh (hs.trans hnil), ?_⟩
    · rintro (hne | hbad)
      · exact (hsame (hs.trans_ne hne)).trans hs
      · cases hbad
    · rintro grant hgrant
      cases hgrant
      exact hagain
  | some grant =>
    have hne : regions s.1 ≠ [] := h.unwinds.ne_nil (h.base_ne_nil (by simp))
    refine ⟨base, hkept, ⟨hhead, ?_⟩, by simp, ?_, fun hnil _ => h.fresh hnil (by simp), h.again⟩
    · rw [hsame hne]
      exact h.unwinds
    · rintro (hstart | hbad)
      · exact h.same (.inl hstart)
      · cases hbad

theorem resize (hA : Unwinding A adjust regions kept allowed)
    (h : Descent A regions kept old start first (e :: es) base s)
    (ha : A.resize e.block size align s = .ok (.ok block, t)) (haddr : block.addr = e.block.addr) :
    Descent A regions kept old start first (⟨block, e.below⟩ :: es) base t := by
  obtain ⟨r, older, hs, htop, hrest⟩ := h.unwinds.uncons
  obtain ⟨hkept, n, ht, htop'⟩ := hA.resize_regrown h.kept hs htop ha haddr
  refine { h with kept := hkept, unwinds := ?_, unasked := fun hnone => nomatch h.unasked hnone }
  rw [hs] at hrest
  rw [ht]
  exact ⟨⟨_, rfl, htop'⟩, hrest⟩

/-- The newest block goes, and with it the first step. -/
theorem free (hA : Unwinding A adjust regions kept allowed)
    (h : Descent A regions kept old start first (e :: es) base s)
    (hf : A.free e.block s = .ok ((), t)) :
    Descent A regions kept old start first es base t := by
  obtain ⟨r, older, hs, htop, hrest⟩ := h.unwinds.uncons
  refine { h with kept := (hA.stacking.free h.kept hf).1, unwinds := ?_,
                  unasked := fun hnone => nomatch h.unasked hnone }
  rw [hA.pop h.kept hs htop hf]
  exact hrest

end Descent

variable {A : Allocator γ} {adjust : Slice → Nat → Nat → Act γ Answer} {regions : γ → List Region}
  {kept : List Entry → γ × Machine → Prop} {allowed : Breakdown → Prop} {old : List Entry}
  {start s : γ × Machine} {first : Option Grant} {stack : List Slice}

/-- However a nested client goes on, it can get back to where it started. -/
theorem Unwinding.descent (hA : Unwinding A adjust regions kept allowed) (hstart : kept old start)
    (hn : Nested A (old.map (·.block)) start first stack s) :
    ∃ es base, es.map (·.block) = stack ∧
      Descent A regions kept old start first es base s := by
  induction hn with
  | start => exact ⟨[], _, rfl, .initial hstart⟩
  | alloc _ ha ih =>
    obtain ⟨es, base, rfl, hd⟩ := ih
    obtain ⟨base', hd'⟩ := hd.alloc hA ha
    exact ⟨_, base', rfl, hd'⟩
  | alloc_refused _ ha ih =>
    obtain ⟨es, base, hstack, hd⟩ := ih
    exact ⟨es, base, hstack,
      hd.mono (hA.stacking.alloc_refused hd.kept ha).1 (hA.put_refused hd.kept ha)⟩
  | resize _ ha haddr ih =>
    obtain ⟨es, base, hstack, hd⟩ := ih
    obtain ⟨e, es, rfl, rfl, rfl⟩ := List.map_eq_cons_iff.1 hstack
    exact ⟨_, base, rfl, hd.resize hA ha haddr⟩
  | resize_refused _ ha ih =>
    obtain ⟨es, base, hstack, hd⟩ := ih
    obtain ⟨e, es, rfl, rfl, rfl⟩ := List.map_eq_cons_iff.1 hstack
    obtain ⟨hkept, hsame⟩ := hA.resize_refused hd.kept ha
    exact ⟨_, base, rfl, hd.mono hkept hsame⟩
  | free _ hf ih =>
    obtain ⟨es, base, hstack, hd⟩ := ih
    obtain ⟨e, es, rfl, rfl, rfl⟩ := List.map_eq_cons_iff.1 hstack
    exact ⟨es, base, rfl, hd.free hA hf⟩
  | @write first stack s addr byte _ hin ih =>
    obtain ⟨es, base, rfl, hd⟩ := ih
    refine ⟨es, base, rfl, hd.mono (hA.stacking.write hd.kept ?_) rfl⟩
    rw [List.map_append]
    exact writtenIn_byte hin s.2.memory fun _ => byte

/-- As long as a nested client goes on, no region is missing that was there when it started. -/
theorem Unwinding.length_le (hA : Unwinding A adjust regions kept allowed) (hstart : kept old start)
    (hn : Nested A (old.map (·.block)) start first stack s) :
    (regions start.1).length ≤ (regions s.1).length := by
  obtain ⟨es, base, _, hd⟩ := hA.descent hstart hn
  by_cases hnil : regions start.1 = []
  · rw [hnil]
    exact Nat.zero_le _
  · rw [← hd.same (.inl hnil)]
    exact hd.unwinds.length_le

/-- The newest block can be taken back, unless the allocator behind breaks off. -/
theorem Unwinding.free_breaksOnly (hA : Unwinding A adjust regions kept allowed)
    (hstart : kept old start) {block : Slice}
    (hn : Nested A (old.map (·.block)) start first (block :: stack) s) :
    (A.free block).BreaksOnly allowed s := by
  obtain ⟨es, base, hstack, hd⟩ := hA.descent hstart hn
  obtain ⟨e, es, rfl, rfl, _⟩ := List.map_eq_cons_iff.1 hstack
  obtain ⟨r, older, hs, htop, _⟩ := hd.unwinds.uncons
  exact hA.pop_breaksOnly hd.kept hs htop

/-- Once all blocks are taken back the regions are those at the start; only where there was none a
new one stays, unused, if some request was met. The first request that was met gets the same block
again, unless that was in a region on top of these. -/
theorem Unwinding.restored (hA : Unwinding A adjust regions kept allowed) (hstart : kept old start)
    (hn : Nested A (old.map (·.block)) start first [] s) :
    kept old s ∧ (regions start.1 ≠ [] ∨ first = none → regions s.1 = regions start.1) ∧
      (regions start.1 = [] → first ≠ none → ∃ r, regions s.1 = [r] ∧ r.used = 0) ∧
      ∀ grant ∈ first, (∃ t, A.alloc grant.size grant.align s = .ok (.ok grant.block, t)) ∨
        (∀ r ∈ regions s.1, ¬ r.buffer.Has grant.block.addr) ∧
          ∃ g, (regions s.1).length < (regions g).length := by
  obtain ⟨es, base, hstack, hd⟩ := hA.descent hstart hn
  obtain rfl : es = [] := List.map_eq_nil_iff.1 hstack
  have hbase : regions s.1 = base := hd.unwinds
  rw [hbase]
  refine ⟨hd.kept, hd.same, hd.fresh, ?_⟩
  intro grant hgrant
  refine (hd.again grant hgrant).imp_left ?_
  rintro ⟨r, older, hr, hserves⟩
  exact hserves s older (hbase.trans hr)

end AllocChain
