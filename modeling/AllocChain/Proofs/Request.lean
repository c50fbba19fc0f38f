import AllocChain.Proofs.Run

/-!
The requests that every allocator answers in the same way. An allocator is orderly if it refuses to
hand out no bytes, takes a resize of null for a request and one to no bytes for a free, and has
nothing to do when null is freed.
-/

namespace AllocChain

variable {β γ : Type}

theorem normalizeAlign_idem (align : Nat) :
    normalizeAlign (normalizeAlign align) = normalizeAlign align := by
  simp only [normalizeAlign]
  omega

theorem normalizeAlign_two_pow (k : Nat) : normalizeAlign (2 ^ k) = 2 ^ k :=
  Nat.max_eq_left (Nat.two_pow_pos k)

/-- An alignment that every allocator takes: a power of two, or zero, which stands for one. -/
def ValidAlign (align : Nat) : Prop := align = 0 ∨ ∃ k, align = 2 ^ k

theorem validAlign_iff {align : Nat} : ValidAlign align ↔ ∃ k, normalizeAlign align = 2 ^ k := by
  rcases Nat.eq_zero_or_pos align with rfl | hpos
  · exact ⟨fun _ => ⟨0, rfl⟩, fun _ => .inl rfl⟩
  · rw [ValidAlign, normalizeAlign, Nat.max_eq_left hpos]
    exact or_iff_right (Nat.ne_of_gt hpos)

/-- A request that nobody refuses as it stands. -/
def ValidRequest (size align : Nat) : Prop := 0 < size ∧ ∃ k, normalizeAlign align = 2 ^ k

theorem validRequest_two_pow {size : Nat} (hs : 0 < size) (k : Nat) : ValidRequest size (2 ^ k) :=
  ⟨hs, k, normalizeAlign_two_pow k⟩

theorem validRequest_max {size : Nat} (hs : 0 < size) (k j : Nat) :
    ValidRequest size (max (2 ^ k) (2 ^ j)) := by
  rcases Nat.le_total (2 ^ k) (2 ^ j) with hle | hle
  · rw [Nat.max_eq_right hle]
    exact validRequest_two_pow hs j
  · rw [Nat.max_eq_left hle]
    exact validRequest_two_pow hs k

theorem Slice.meets_normalizeAlign {block : Slice} {size align : Nat} :
    block.Meets size (normalizeAlign align) ↔ block.Meets size align := by
  rw [Meets, Meets, normalizeAlign_idem]

/-- A request is refused as it stands, or served with its alignment normalized, which is a power of
two. -/
theorem allocBy_ok {serve : Nat → Nat → Act β Answer} {size align : Nat} {s t : β × Machine}
    {r : Answer} (h : allocBy serve size align s = .ok (r, t)) :
    (∃ e, r = .error e ∧ t = s) ∨
      0 < size ∧ (∃ k, normalizeAlign align = 2 ^ k) ∧
        serve size (normalizeAlign align) s = .ok (r, t) := by
  simp only [allocBy] at h
  cases hc : checkRequest size align with
  | error e =>
    simp only [hc, Act.pure_ok] at h
    exact .inl ⟨e, h⟩
  | ok a =>
    obtain ⟨hs, hpow, rfl⟩ := checkRequest_eq_ok_iff.1 hc
    simp only [hc] at h
    exact .inr ⟨Nat.pos_of_ne_zero hs, Word.isPowerOfTwo_iff.1 hpow, h⟩

theorem allocBy_valid {serve : Nat → Nat → Act β Answer} {size align : Nat} (hs : 0 < size)
    (hpow : ∃ k, normalizeAlign align = 2 ^ k) :
    allocBy serve size align = serve size (normalizeAlign align) := by
  have hc : checkRequest size align = .ok (normalizeAlign align) :=
    checkRequest_eq_ok_iff.2 ⟨Nat.pos_iff_ne_zero.1 hs, Word.isPowerOfTwo_iff.2 hpow, rfl⟩
  simp only [allocBy, hc]

theorem allocBy_two_pow {serve : Nat → Nat → Act β Answer} {size : Nat} (hs : 0 < size)
    (k : Nat) : allocBy serve size (2 ^ k) = serve size (2 ^ k) := by
  rw [allocBy_valid hs ⟨k, normalizeAlign_two_pow k⟩, normalizeAlign_two_pow]

theorem allocBy_served {serve : Nat → Nat → Act β Answer} {size align : Nat} {s t : β × Machine}
    {block : Slice} (h : allocBy serve size align s = .ok (.ok block, t)) :
    0 < size ∧ serve size (normalizeAlign align) s = .ok (.ok block, t) ∧
      ∀ s', allocBy serve size align s' = serve size (normalizeAlign align) s' := by
  rcases allocBy_ok h with ⟨_, hbad, _⟩ | ⟨hs, hpow, hserve⟩
  · cases hbad
  · exact ⟨hs, hserve, fun s' => congrFun (allocBy_valid hs hpow) s'⟩

theorem allocBy_zero {serve : Nat → Nat → Act β Answer} {align : Nat} {s t : β × Machine}
    {r : Answer} (h : allocBy serve 0 align s = .ok (r, t)) : ∃ e, r = .error e := by
  rcases allocBy_ok h with ⟨e, hr, _⟩ | ⟨hpos, _⟩
  · exact ⟨e, hr⟩
  · exact absurd hpos (Nat.lt_irrefl 0)

/-- A resize of a block to some bytes is refused as it stands, or made with its alignment
normalized, which is a power of two. -/
theorem resizeBy_ok {alloc : Nat → Nat → Act β Answer} {free : Slice → Act β Unit}
    {adjust : Slice → Nat → Nat → Act β Answer} {block : Slice} {size align : Nat}
    {s t : β × Machine} {r : Answer} (hn : block.isNull = false) (hs : size ≠ 0)
    (h : resizeBy alloc free adjust block size align s = .ok (r, t)) :
    (∃ e, r = .error e ∧ t = s) ∨
      (∃ k, normalizeAlign align = 2 ^ k) ∧
        adjust block size (normalizeAlign align) s = .ok (r, t) := by
  simp only [resizeBy, hn, Bool.false_eq_true, if_false, if_neg hs] at h
  cases hc : checkRequest size align with
  | error e =>
    simp only [hc, Act.pure_ok] at h
    exact .inl ⟨e, h⟩
  | ok a =>
    obtain ⟨_, hpow, rfl⟩ := checkRequest_eq_ok_iff.1 hc
    simp only [hc] at h
    exact .inr ⟨Word.isPowerOfTwo_iff.1 hpow, h⟩

theorem resizeBy_valid {alloc : Nat → Nat → Act β Answer} {free : Slice → Act β Unit}
    {adjust : Slice → Nat → Nat → Act β Answer} {block : Slice} {size align : Nat}
    (hn : block.isNull = false) (hs : size ≠ 0) (hpow : ∃ k, normalizeAlign align = 2 ^ k) :
    resizeBy alloc free adjust block size align = adjust block size (normalizeAlign align) := by
  have hc : checkRequest size align = .ok (normalizeAlign align) :=
    checkRequest_eq_ok_iff.2 ⟨hs, Word.isPowerOfTwo_iff.2 hpow, rfl⟩
  simp only [resizeBy, hn, Bool.false_eq_true, if_false, if_neg hs, hc]

theorem resizeBy_invalid {alloc : Nat → Nat → Act β Answer} {free : Slice → Act β Unit}
    {adjust : Slice → Nat → Nat → Act β Answer} {block : Slice} {size align : Nat}
    (hn : block.isNull = false) (hs : size ≠ 0) (hpow : ¬ ∃ k, normalizeAlign align = 2 ^ k) :
    resizeBy alloc free adjust block size align =
      return .error (.invalidLayout size align) := by
  have hbad : Word.isPowerOfTwo (normalizeAlign align) = false :=
    Bool.eq_false_iff.2 fun hp => hpow (Word.isPowerOfTwo_iff.1 hp)
  simp only [resizeBy, hn, Bool.false_eq_true, if_false, if_neg hs,
    checkRequest_eq_invalidLayout hs hbad]

theorem resizeBy_null {alloc : Nat → Nat → Act β Answer} {free : Slice → Act β Unit}
    {adjust : Slice → Nat → Nat → Act β Answer} {block : Slice} {size align : Nat}
    (hn : block.isNull = true) :
    resizeBy alloc free adjust block size align = alloc size align := by
  simp only [resizeBy]
  rw [if_pos hn]

theorem resizeBy_zero {alloc : Nat → Nat → Act β Answer} {free : Slice → Act β Unit}
    {adjust : Slice → Nat → Nat → Act β Answer} {block : Slice} {align : Nat}
    (hn : block.isNull = false) :
    resizeBy alloc free adjust block 0 align = do
      free block
      return .ok .null := by
  simp only [resizeBy]
  simp [hn]

/-- A block is moved by allocating, copying and freeing, or it stays because there is no other. -/
theorem relocate_ok {alloc : Nat → Nat → Act β Answer} {free : Slice → Act β Unit} {block : Slice}
    {size align : Nat} {s t : β × Machine} {r : Answer}
    (h : relocate alloc free block size align s = .ok (r, t)) :
    (∃ e, r = .error e ∧ alloc size align s = .ok (.error e, t)) ∨
      ∃ fresh u, r = .ok fresh ∧ alloc size align s = .ok (.ok fresh, u) ∧
        free block (u.1, u.2.mapMemory (·.copyCommon block fresh)) = .ok ((), t) := by
  simp only [relocate] at h
  obtain ⟨answer, u, halloc, h⟩ := Act.bind_ok.1 h
  cases answer with
  | error e =>
    simp only [Act.pure_ok] at h
    obtain ⟨rfl, rfl⟩ := h
    exact .inl ⟨e, rfl, halloc⟩
  | ok fresh =>
    simp only [Act.bind_ok, Act.lift_ok, Act.changeMemory_ok, Act.pure_ok] at h
    obtain ⟨_, _, ⟨_, rfl⟩, _, _, rfl, _, _, hfree, rfl, rfl⟩ := h
    exact .inr ⟨fresh, u, rfl, halloc, hfree⟩

theorem relocate_refused {alloc : Nat → Nat → Act γ Answer} {free : Slice → Act γ Unit}
    {block : Slice} {size align : Nat} {s t : γ × Machine} {e : AllocError}
    (h : relocate alloc free block size align s = .ok (.error e, t)) :
    alloc size align s = .ok (.error e, t) := by
  rcases relocate_ok h with ⟨_, heq, ha⟩ | ⟨_, _, hbad, _⟩
  · cases heq
    exact ha
  · cases hbad

/-- If the copy would overlap, nothing is moved. -/
theorem relocate_overlap {alloc : Nat → Nat → Act β Answer} {free : Slice → Act β Unit}
    {block fresh : Slice} {size align : Nat} {s t : β × Machine}
    (ha : alloc size align s = .ok (.ok fresh, t)) (hover : ¬ block.CopiesApart fresh) :
    relocate alloc free block size align s = .error (t.2.breakOff .copyOverlap) := by
  obtain ⟨b, m⟩ := t
  simp only [relocate, Act.bind_apply, ha, Except.bind, Act.lift_apply, Slice.checkCopy,
    Fault.demand_of_not hover, Act.mapError_error, Except.map]

theorem allocZeroed_ok {A : Allocator γ} {size align : Nat} {s t : γ × Machine} {r : Answer}
    (h : A.allocZeroed size align s = .ok (r, t)) :
    (∃ e, r = .error e ∧ A.alloc size align s = .ok (.error e, t)) ∨
      ∃ block u, r = .ok block ∧ A.alloc size align s = .ok (.ok block, u) ∧
        t = (u.1, u.2.mapMemory (·.write block.addr block.len fun _ => 0)) := by
  simp only [Allocator.allocZeroed] at h
  obtain ⟨answer, u, halloc, h⟩ := Act.bind_ok.1 h
  cases answer with
  | error e =>
    simp only [Act.pure_ok] at h
    obtain ⟨rfl, rfl⟩ := h
    exact .inl ⟨e, rfl, halloc⟩
  | ok block =>
    simp only [Act.bind_ok, Act.changeMemory_ok, Act.pure_ok] at h
    obtain ⟨_, _, rfl, rfl, rfl⟩ := h
    exact .inr ⟨block, u, rfl, halloc, rfl⟩

theorem allocZeroed_refused {A : Allocator γ} {size align : Nat} {s t : γ × Machine}
    {e : AllocError} (h : A.alloc size align s = .ok (.error e, t)) :
    A.allocZeroed size align s = .ok (.error e, t) :=
  Act.bind_ok.2 ⟨_, _, h, rfl⟩

theorem allocZeroed_answered {A : Allocator γ} {size align : Nat} {s u : γ × Machine}
    {block : Slice} (h : A.alloc size align s = .ok (.ok block, u)) :
    A.allocZeroed size align s =
      .ok (.ok block, (u.1, u.2.mapMemory (·.write block.addr block.len fun _ => 0))) :=
  Act.bind_ok.2 ⟨_, _, h, rfl⟩

/-- Freeing blocks one after the other takes them off the ledger. -/
theorem Ledger.freeAll {B : Allocator β} {fit : Nat → Nat → Slice → Prop}
    {holds : List Slice → β × Machine → Prop} (hB : Ledger B fit holds) {blocks out : List Slice}
    {s t : β × Machine} (h : B.freeAll blocks s = .ok ((), t)) (hh : holds (blocks ++ out) s) :
    holds out t := by
  induction blocks generalizing s with
  | nil =>
    rw [(Act.pure_ok.1 h).2]
    exact hh
  | cons block blocks ih =>
    obtain ⟨_, u, hfree, hrest⟩ := Act.bind_ok.1 h
    exact ih hrest (hB.free hh hfree)

theorem perform_free_ok {A : Allocator γ} {block : Slice} {s t : γ × Machine} {r : Answer}
    (h : A.perform (.free block) s = .ok (r, t)) :
    r = .ok .null ∧ A.free block s = .ok ((), t) := by
  simp only [Allocator.perform, Act.bind_ok, Act.pure_ok] at h
  obtain ⟨_, _, hfree, rfl, rfl⟩ := h
  exact ⟨rfl, hfree⟩

theorem perform_write_ok {A : Allocator γ} {addr : Nat} {byte : UInt8} {s t : γ × Machine}
    {r : Answer} (h : A.perform (.write addr byte) s = .ok (r, t)) :
    r = .ok .null ∧ t = (s.1, s.2.mapMemory (·.write addr 1 fun _ => byte)) := by
  simp only [Allocator.perform, Act.bind_ok, Act.changeMemory_ok, Act.pure_ok] at h
  obtain ⟨_, _, rfl, rfl, rfl⟩ := h
  exact ⟨rfl, rfl⟩

/-- What every allocator does with the requests that need no block. -/
structure Orderly (A : Allocator γ) : Prop where
  alloc_zero {align s r t} : A.alloc 0 align s = .ok (r, t) → ∃ e, r = .error e
  resize_null {block size align} : block.isNull = true →
    A.resize block size align = A.alloc size align
  resize_zero {block align} : block.isNull = false → A.resize block 0 align = do
    A.free block
    return .ok .null
  free_null {block s t} : block.isNull = true → A.free block s = .ok ((), t) →
    t.1 = s.1 ∧ t.2.memory = s.2.memory

theorem Orderly.resize_zero_ok {A : Allocator γ} (h : Orderly A) {block : Slice} {align : Nat}
    {s t : γ × Machine} {r : Answer} (hn : block.isNull = false)
    (hr : A.resize block 0 align s = .ok (r, t)) :
    r = .ok .null ∧ A.free block s = .ok ((), t) := by
  rw [h.resize_zero hn] at hr
  obtain ⟨_, _, hfree, hret⟩ := Act.bind_ok.1 hr
  obtain ⟨rfl, rfl⟩ := Act.pure_ok.1 hret
  exact ⟨rfl, hfree⟩

end AllocChain
