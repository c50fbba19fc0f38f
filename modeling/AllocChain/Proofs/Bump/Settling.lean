import AllocChain.Proofs.Bump.Edge
import AllocChain.Proofs.Bump.Strangers

/-!
When a block stays where it is. Of all the tests that a bump region makes, for a block that a client
holds two things remain: whether the block is aligned, and whether it shrinks or ends where the used
part ends and has room (`Region.Stays`). `Settling` says so for a fixed allocator and for an arena,
where the region is the one that the block lies in, newest or not. What cannot stay is moved, and
where that breaks off the resize does, too (`Fixed.breaksAt`, `Arena.breaksAt`,
`SlabPool.breaksAt`).
-/

namespace AllocChain

open Memory

namespace Region

/-- A resize leaves the block where it is: it is aligned, and either it does not grow or it ends
where the used part ends and has room up to the end of the buffer. -/
def Stays (r : Region) (mem : Slice) (size align : Nat) : Prop :=
  align ∣ mem.addr ∧ (size ≤ mem.len ∨
    mem.addr + mem.len = r.base + r.used ∧ mem.addr - r.base + size ≤ r.capacity)

instance (r : Region) (mem : Slice) (size align : Nat) : Decidable (r.Stays mem size align) :=
  inferInstanceAs (Decidable (_ ∧ _))

/-- The region after that: what is used ends with the top block. -/
def resized (r : Region) (mem : Slice) (size : Nat) : Region :=
  if mem.addr + mem.len = r.base + r.used then { r with used := mem.addr - r.base + size } else r

variable {r : Region} {mem : Slice}

/-- What a resize in place comes to for a slice in the buffer. -/
theorem resizeInPlace_owned (h : r.Addressable) (hm : mem.Bounded)
    (howned : r.base + headerSize ≤ mem.addr ∧ mem.addr + mem.len ≤ r.base + r.capacity)
    (size k : Nat) : r.resizeInPlace mem size (2 ^ k) =
      .ok (if 2 ^ k ∣ mem.addr then
        if mem.addr + mem.len = r.base + r.used then
          if mem.addr - r.base + size ≤ r.capacity then
            some { r with used := mem.addr - r.base + size }
          else none
        else if size ≤ mem.len then some r else none
      else none) := by
  have hstart : r.base ≤ mem.addr := Nat.le_trans (Nat.le_add_right _ _) howned.1
  have htop : r.Tops mem ↔ mem.addr + mem.len = r.base + r.used := and_iff_right howned.1
  simp only [resizeInPlace, owns_returns h hm, isTop_returns h hm, Word.isAligned_two_pow,
    Word.sub_of_le hstart, howned, htop, bind, Except.bind, pure, Except.pure]
  by_cases haligned : 2 ^ k ∣ mem.addr
  · by_cases hends : mem.addr + mem.len = r.base + r.used
    · have hbuffer := h.buffer
      by_cases hword : mem.addr - r.base + size < wordLimit
      · by_cases hfits : mem.addr - r.base + size ≤ r.capacity
        · simp [haligned, hends, Word.add?, hword, hfits, Nat.not_lt.2 hfits]
        · simp [haligned, hends, Word.add?, hword, hfits, Nat.lt_of_not_le hfits]
      · have hmany : ¬ mem.addr - r.base + size ≤ r.capacity := by omega
        simp [haligned, hends, Word.add?, hword, hmany]
    · simp [haligned, hends]
  · simp [haligned]

/-- A block in the used part stays where it is exactly if it can. -/
theorem resizeInPlace_covered (h : r.Addressable) (hm : mem.Bounded) (hcov : r.Covers mem)
    (size k : Nat) : r.resizeInPlace mem size (2 ^ k) =
      .ok (if r.Stays mem size (2 ^ k) then some (r.resized mem size) else none) := by
  have hused := h.used
  obtain ⟨hlow, hhigh⟩ := hcov
  rw [resizeInPlace_owned h hm ⟨hlow, by omega⟩]
  by_cases hends : mem.addr + mem.len = r.base + r.used
  · -- a block on top that does not grow has room, too
    have hstays : r.Stays mem size (2 ^ k) ↔
        2 ^ k ∣ mem.addr ∧ mem.addr - r.base + size ≤ r.capacity := by
      refine and_congr_right fun _ => ?_
      omega
    simp only [hstays, resized, if_pos hends, ite_and]
  · have hstays : r.Stays mem size (2 ^ k) ↔ 2 ^ k ∣ mem.addr ∧ size ≤ mem.len :=
      and_congr_right fun _ => or_iff_left fun hbad => hends hbad.1
    simp only [hstays, resized, if_neg hends, ite_and]

theorem Covers.owns (h : r.Addressable) (hm : mem.Bounded) (hcov : r.Covers mem) :
    r.owns mem = .ok true := by
  have hused := h.used
  obtain ⟨hlow, hhigh⟩ := hcov
  rw [owns_returns h hm, decide_eq_true ⟨hlow, by omega⟩]

end Region

open Region

variable {β γ : Type}

/-- What a resize to some bytes does, by the region that the block lies in; `put` replaces that
region and nothing else. -/
structure Settling (A : Allocator γ) (adjust : Slice → Nat → Nat → Act γ Answer)
    (regions : γ → List Region) (kept : List Entry → γ × Machine → Prop)
    (put : γ → Nat → Region → γ) : Prop where
  stacking : Stacking A adjust regions kept
  placed {es s} : kept es s → Placed (regions s.1) s.2.memory es
  regions_put {g i} {r r' : Region} : (regions g)[i]? = some r →
    regions (put g i r') = (regions g).set i r'
  adjust_eq {es s e i} {r : Region} (size k : Nat) : kept (e :: es) s →
    (∀ r ∈ regions s.1, r.Addressable) → (regions s.1)[i]? = some r → r.Covers e.block → ∃ event,
    adjust e.block size (2 ^ k) s = if r.Stays e.block size (2 ^ k) then
        .ok (.ok ⟨e.block.addr, size⟩, (put s.1 i (r.resized e.block size), s.2.report [event]))
      else relocate A.alloc A.free e.block size (2 ^ k) s

/-- In the region that it lies in the block cannot stay where it is. -/
def Region.Leaves (regions : List Region) (mem : Slice) (size align : Nat) : Prop :=
  ∃ r ∈ regions, r.Covers mem ∧ ¬ r.Stays mem size align

/-- A resize breaks off where the block has to leave its region and moving it breaks off. -/
theorem Settling.resize_breaksJust {A : Allocator γ} {adjust : Slice → Nat → Nat → Act γ Answer}
    {regions : γ → List Region} {kept : List Entry → γ × Machine → Prop}
    {put : γ → Nat → Region → γ} {cause : Breakdown → Prop} {old : Slice} {out : List Slice}
    {s : γ × Machine} {size align : Nat} (h : Settling A adjust regions kept put)
    (hh : Stacking.Holds kept (old :: out) s) (haddr : ∀ r ∈ regions s.1, r.Addressable)
    (hs : size ≠ 0) (hmove : ∀ k, normalizeAlign align = 2 ^ k →
      (relocate A.alloc A.free old size (2 ^ k)).BreaksJust cause s) :
    (A.resize old size align).BreaksJust (fun brk => ValidRequest size align ∧
      Leaves (regions s.1) old size (normalizeAlign align) ∧ cause brk) s := by
  refine h.stacking.lending.resize_breaksJust hh hs ?_
  rintro ⟨k, hk⟩
  obtain ⟨e, es, rfl, _, hkept⟩ := h.stacking.entry_of_holds hh
  obtain ⟨i, ⟨r, hi, hcov⟩, honly⟩ := (h.placed hkept).existsUnique_covers List.mem_cons_self
    (h.stacking.nonempty hkept e List.mem_cons_self)
  have hleaves : Leaves (regions s.1) e.block size (2 ^ k) ↔ ¬ r.Stays e.block size (2 ^ k) := by
    constructor
    · rintro ⟨r', hr', hcov', hstays⟩
      obtain ⟨j, hj⟩ := List.mem_iff_getElem?.1 hr'
      obtain rfl : j = i := honly j ⟨r', hj, hcov'⟩
      rwa [Option.some.inj (hi.symm.trans hj)]
    · exact fun hstays => ⟨r, List.mem_of_getElem? hi, hcov, hstays⟩
  obtain ⟨event, hadjust⟩ := h.adjust_eq size k hkept haddr hi hcov
  rw [hk]
  exact (Act.BreaksJust.of_ite hadjust fun _ => hmove k hk).congr fun brk =>
    and_congr_left fun _ => hleaves.symm

namespace Fixed

theorem settling : Settling allocator adjust (fun r => [r]) Kept fun _ _ r => r where
  stacking := stacking
  placed hk := hk.placed
  regions_put {g i r r'} hi := by
    cases i with
    | zero => rfl
    | succ i => cases hi
  adjust_eq {es s e i r} size k hk haddr hi hcov := by
    obtain rfl : r = s.1 := List.mem_singleton.1 (List.mem_of_getElem? hi)
    have hres := resizeInPlace_covered (haddr _ (List.mem_singleton_self _))
      (stacking.bounded hk e List.mem_cons_self) hcov size k
    refine ⟨.fixedResizeInPlace e.block.len size e.block.addr, ?_⟩
    obtain ⟨r, m⟩ := s
    by_cases hstays : r.Stays e.block size (2 ^ k) <;>
      simp [adjust, hres, hstays, allocator, Except.bind, Except.map, Machine.report]

end Fixed

namespace Arena

variable {B : Allocator β} {s t : (Arena × β) × Machine} {mem : Slice} {size align i : Nat}
  {chunk : Chunk} {chunks : List Chunk}

/-- The arena with another region in one of its chunks. -/
def putRegion (l : Arena × β) (i : Nat) (region : Region) : Arena × β :=
  ({ l.1 with chunks := l.1.chunks.modify i fun chunk => { chunk with region } }, l.2)

/-- A resize in place is up to the first chunk that owns the block. -/
theorem resizeIn_at {found : Option Region} (hi : chunks[i]? = some chunk)
    (hnewer : ∀ j < i, ∀ c, chunks[j]? = some c → c.region.owns mem = .ok false)
    (howns : chunk.region.owns mem = .ok true)
    (hres : chunk.region.resizeInPlace mem size align = .ok found) :
    resizeIn mem size align chunks =
      .ok (found.map fun region => chunks.modify i fun chunk => { chunk with region }) := by
  induction chunks generalizing i with
  | nil => cases hi
  | cons first older ih =>
    cases i with
    | zero =>
      cases hi
      cases found <;> simp [resizeIn, howns, hres, bind, Except.bind, pure, Except.pure]
    | succ i =>
      have hfirst := hnewer 0 (Nat.succ_pos i) first rfl
      have hrest := ih hi fun j hj c hc => hnewer (j + 1) (Nat.succ_lt_succ hj) c hc
      cases found <;> simp [resizeIn, hfirst, hrest, bind, Except.bind, pure, Except.pure]

variable {fit : Nat → Nat → Slice → Prop} {holds : List Slice → β × Machine → Prop}

/-- In an arena the chunk is looked up that owns the block, and no other one does. -/
theorem settling (hB : Supply B fit holds) (hC : Custody B holds) :
    Settling (allocator B) (adjust B) (fun l => l.1.chunks.map (·.region)) (Kept holds)
      putRegion where
  stacking := stacking hB hC
  placed hk := hk.placed hB
  regions_put {g i r r'} hi := by
    refine List.ext_getElem? fun j => ?_
    by_cases hj : i = j
    · subst hj
      obtain ⟨chunk, hc, _⟩ := Option.map_eq_some_iff.1 (List.getElem?_map.symm.trans hi)
      simp only [putRegion, List.getElem?_map, List.getElem?_modify_eq, hc,
        List.getElem?_set_self (List.getElem?_eq_some_iff.1 hi).1]
      rfl
    · simp [putRegion, hj]
  adjust_eq {es s e i r} size k hk haddr hi hcov := by
    have hpos := hk.piled.nonempty (e := e) List.mem_cons_self
    have hbound := hk.piled.bounded (e := e) List.mem_cons_self
    have hplaced := hk.placed hB
    have hr := haddr r (List.mem_of_getElem? hi)
    have hhas := hcov.has hpos hr.used
    obtain ⟨chunk, hc, rfl⟩ := Option.map_eq_some_iff.1 (List.getElem?_map.symm.trans hi)
    have hnewer : ∀ j < i, ∀ c, s.1.1.chunks[j]? = some c →
        c.region.owns e.block = .ok false := by
      intro j hj c hcj
      have hcj' : (s.1.1.chunks.map (·.region))[j]? = some c.region := by
        rw [List.getElem?_map, hcj, Option.map_some]
      rw [owns_returns (haddr _ (List.mem_of_getElem? hcj')) hbound, decide_eq_false]
      rintro ⟨hlow, hhigh⟩
      have hhas' : c.region.buffer.Has e.block.addr := by
        simp only [buffer, Slice.Has]
        omega
      exact Nat.ne_of_lt hj (hplaced.index_unique hi hcj' hhas hhas')
    have hres := resizeIn_at hc hnewer (hcov.owns hr hbound)
      (resizeInPlace_covered hr hbound hcov size k)
    refine ⟨.arenaResizeInPlace e.block.len size e.block.addr, ?_⟩
    obtain ⟨⟨a, b⟩, m⟩ := s
    by_cases hstays : chunk.region.Stays e.block size (2 ^ k) <;>
      simp [adjust, hres, hstays, allocator, putRegion, Except.bind, Except.map, Machine.report]

end Arena

/-! ### Moving -/

namespace Fixed

variable {s t : Region × Machine} {mem : Slice} {out : List Slice} {size align k : Nat}
  {e : AllocError}

/-- A valid request is refused for want of memory. -/
theorem push_refused (h : push size align s = .ok (.error e, t)) : e = .outOfMemory size align := by
  simp only [push, Act.bind_ok, Act.get_ok, Act.lift_ok] at h
  obtain ⟨_, _, ⟨rfl, rfl⟩, found, _, ⟨_, rfl⟩, h⟩ := h
  cases found with
  | none => exact Except.error.inj (Act.pure_ok.1 h).1
  | some found =>
    simp only [Act.bind_ok, Act.set_ok, Act.emit_ok, Act.pure_ok] at h
    obtain ⟨_, _, _, _, _, _, hbad, _⟩ := h
    cases hbad

theorem relocate_breaksJust (hh : Stacking.Holds Kept (mem :: out) s) (hs : 0 < size) :
    (relocate alloc free mem size (2 ^ k)).BreaksJust
      (fun brk => s.1.AtEdge (2 ^ k) ∧ brk = s.2.breakOff .addOverflow) s := by
  refine stacking.lending.relocate_breaksJust hh ?_ fun ha =>
    free_returns (stacking.lending.copied hh ha)
  change (alloc size (2 ^ k)).BreaksJust _ s
  rw [alloc, allocBy_two_pow hs]
  exact push_breaksJust

end Fixed

namespace Arena

variable {B : Allocator β} {holds : List Slice → β × Machine → Prop} {s : (Arena × β) × Machine}
  {mem : Slice} {out : List Slice} {size k : Nat} {below : Nat → Nat → Breakdown → Prop}

theorem relocate_breaksJust (hB : Supply B Slice.Answers holds) (hC : Custody B holds)
    (hh : Stacking.Holds (Kept holds) (mem :: out) s) (hs : 0 < size)
    (hcall : ∀ size align, (B.alloc size align).BreaksJust (below size align) (s.1.2, s.2)) :
    (relocate (alloc B) (free B) mem size (2 ^ k)).BreaksJust (Breaks B below size (2 ^ k) s)
      s := by
  refine (stacking hB hC).lending.relocate_breaksJust hh ?_ (free_moved hB hC hh)
  change (alloc B size (2 ^ k)).BreaksJust _ s
  rw [alloc, allocBy_two_pow hs]
  obtain ⟨_, _, hk⟩ := hh
  exact serve_breaksJust hB hk.backed hcall

end Arena

namespace SlabPool

variable {B : Allocator β} {holds : List Slice → β × Machine → Prop}
  {s : (SlabPool × β) × Machine} {mem : Slice} {out : List Slice} {size k : Nat}
  {below : Nat → Nat → Breakdown → Prop}

theorem adjust_eq (mem : Slice) (size k : Nat) : adjust B mem size (2 ^ k) s =
    if 2 ^ k ∣ mem.addr ∧ size ≤ mem.len then .ok (.ok ⟨mem.addr, size⟩, s)
    else relocate (alloc B) free mem size (2 ^ k) s := by
  have hstays : (size ≤ mem.len ∧ mem.addr % 2 ^ k = 0) ↔ 2 ^ k ∣ mem.addr ∧ size ≤ mem.len := by
    rw [and_comm, Nat.dvd_iff_mod_eq_zero]
  simp only [adjust, hstays]
  split <;> rfl

theorem relocate_breaksJust (hB : Contract B holds) (hh : Kept holds (mem :: out) s)
    (hs : 0 < size)
    (hcall : ∀ size align, (B.alloc size align).BreaksJust (below size align) (s.1.2, s.2)) :
    (relocate (alloc B) free mem size (2 ^ k)).BreaksJust (Breaks B below size (2 ^ k) s) s := by
  refine (lending hB.keeper).relocate_breaksJust hh ?_ fun _ => ⟨_, rfl⟩
  change (alloc B size (2 ^ k)).BreaksJust _ s
  rw [alloc, allocBy_two_pow hs]
  exact serve_breaksJust hB.supply hh.backed.1 hcall

end SlabPool

/-! ### Edges -/

/-- The edges of a fixed allocator. -/
def Fixed.edges : Edges Region where
  alloc := Breaks
  resize mem size align s brk := ValidRequest size align ∧
    Leaves [s.1] mem size (normalizeAlign align) ∧
    s.1.AtEdge (normalizeAlign align) ∧ brk = s.2.breakOff .addOverflow

/-- A fixed allocator breaks off at its edges only. -/
theorem Fixed.breaksAt : allocator.BreaksAt edges (Stacking.Holds Kept) where
  alloc _ _ _ := alloc_breaksJust
  resize {out s old size} align hh hs := by
    have haddr : s.1.Addressable := by
      obtain ⟨e, es, _, _, hk⟩ := stacking.entry_of_holds hh
      exact Kept.addressable hk
    refine settling.resize_breaksJust hh (by simpa using haddr) hs fun k hpow => ?_
    rw [hpow]
    exact relocate_breaksJust hh (Nat.pos_of_ne_zero hs)
  free hh := free_returns hh

/-- The edges of an arena over `B`, whose edges are `E`. -/
def Arena.edges (B : Allocator β) (E : Edges β) : Edges (Arena × β) where
  alloc size align s brk := ValidRequest size align ∧
    Breaks B (fun size align => E.alloc size align (s.1.2, s.2)) size (normalizeAlign align) s brk
  resize mem size align s brk := ValidRequest size align ∧
    Leaves (s.1.1.chunks.map (·.region)) mem size (normalizeAlign align) ∧
    Breaks B (fun size align => E.alloc size align (s.1.2, s.2)) size (normalizeAlign align) s brk

/-- An arena breaks off at the edges of its chunks, and as the allocator behind does. -/
theorem Arena.breaksAt {B : Allocator β} {E : Edges β} {holds : List Slice → β × Machine → Prop}
    (hB : Contract B holds) (hE : B.BreaksAt E holds) : (allocator B).BreaksAt (edges B E)
      fun out s => Stacking.Holds (Kept holds) out s ∧ Roomy s where
  alloc {out s} size align hh := by
    obtain ⟨⟨_, _, hk⟩, _⟩ := hh
    exact alloc_breaksJust hB.supply hk.backed fun size align => hE.alloc size align hk.backed
  resize {out s old size} align hh hs := by
    obtain ⟨hheld, hroom⟩ := hh
    obtain ⟨_, _, hk⟩ := id hheld
    have haddr : ∀ r ∈ s.1.1.chunks.map (·.region), r.Addressable := by
      intro r hr
      obtain ⟨chunk, hc, rfl⟩ := List.mem_map.1 hr
      exact hk.addressable hB.supply hroom chunk hc
    refine (settling hB.supply hB.custody).resize_breaksJust hheld haddr hs fun k hpow => ?_
    rw [hpow]
    exact relocate_breaksJust hB.supply hB.custody hheld (Nat.pos_of_ne_zero hs)
      fun size align => hE.alloc size align hk.backed
  free hh := free_returns hB.supply hE.free hh.1 hh.2

/-- The edges of a slab pool over `B`, whose edges are `E`. -/
def SlabPool.edges (B : Allocator β) (E : Edges β) : Edges (SlabPool × β) where
  alloc size align s brk := ValidRequest size align ∧
    Breaks B (fun size align => E.alloc size align (s.1.2, s.2)) size (normalizeAlign align) s brk
  resize mem size align s brk := ValidRequest size align ∧
    ¬ (normalizeAlign align ∣ mem.addr ∧ size ≤ mem.len) ∧
    Breaks B (fun size align => E.alloc size align (s.1.2, s.2)) size (normalizeAlign align) s brk

/-- A slab pool breaks off at the edges of its slabs, and as the allocator behind does. -/
theorem SlabPool.breaksAt {B : Allocator β} {E : Edges β}
    {holds : List Slice → β × Machine → Prop} (hB : Contract B holds)
    (hE : B.BreaksAt E holds) : (allocator B).BreaksAt (edges B E) (Kept holds) where
  alloc size align hh :=
    alloc_breaksJust hB.supply hh.backed.1 fun size align => hE.alloc size align hh.backed.1
  resize {out s old size} align hh hs := by
    refine (lending hB.keeper).resize_breaksJust hh hs ?_
    rintro ⟨k, hpow⟩
    rw [hpow]
    exact .of_ite (adjust_eq old size k) fun _ =>
      relocate_breaksJust hB hh (Nat.pos_of_ne_zero hs) fun size align =>
        hE.alloc size align hh.backed.1
  free _ := ⟨_, rfl⟩

end AllocChain
