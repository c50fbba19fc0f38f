import AllocChain.Proofs.Classes.Release

/-!
What resizing a slice does to a general-purpose allocator, whatever the slice is (`ExactResize`). A
block in a slot stays there exactly as long as its class does not change; otherwise it gives way to
a block elsewhere, and its slot is released as by a free. That the slot is still at its position
then, although the request may have put up a bucket, is what has to be shown: requests move no place
(`Kept.spans_alloc`). A large block is resized behind, under the length that was recorded for it.
-/

namespace AllocChain

open Lease

theorem Bucket.get_of_takeSlot {b b' : Bucket} {c addr k : Nat} (hb : b.Sound c)
    (h : b.takeSlot = .ok (some (addr, b'))) (hk : b.slots.get k = true) :
    b'.slots.get k = true := by
  obtain ⟨slot, slots, _, hset, _, rfl⟩ := takeSlot_eq_some h
  change slots.get k = true
  rw [Bitmap.get_set hb.packed hset, hk, Bool.or_true]

namespace GeneralPurpose

/-! ### Places during a request -/

section Places

variable {g : GeneralPurpose} {c i : Nat} {bs new : List Bucket} {b b' : Bucket} {o : Owner}
  {span : Slice} {occupied : BitSet 1} {large : List Slice}

/-- Places stay if every bucket of the class has a successor at its position with the same shape and
all its taken slots. -/
theorem Spans.setBuckets (ho : g.Spans o span) (hc : g.classes.toList[c]? = some bs)
    (hnew : ∀ (i : Nat) b, bs[i]? = some b → ∃ b', new[i]? = some b' ∧ b.SameShape b' ∧
      ∀ k, b.slots.get k = true → b'.slots.get k = true) :
    Spans { g.setBuckets c new with occupied } o span := by
  cases o with
  | large i => exact ho
  | slot c' i k =>
    obtain ⟨bs', b, hc', hi, hk, rfl⟩ := ho
    have hlt : c < g.classes.toList.length := (List.getElem?_eq_some_iff.1 hc).1
    by_cases hcc : c = c'
    · subst hcc
      obtain rfl : bs = bs' := Option.some.inj (hc.symm.trans hc')
      obtain ⟨b', hi', hshape, hbits⟩ := hnew i b hi
      refine ⟨new, b', ?_, hi', hbits k hk, by rw [hshape.place]⟩
      change (g.setBuckets c new).classes.toList[c]? = some new
      rw [classes_setBuckets, List.getElem?_set_self hlt]
    · refine ⟨bs', b, ?_, hi, hk, rfl⟩
      change (g.setBuckets c new).classes.toList[c']? = some bs'
      rw [classes_setBuckets, List.getElem?_set_ne hcc]
      exact hc'

theorem Spans.push (ho : g.Spans o span) (mem : Slice) :
    Spans { g with large := g.large ++ [mem] } o span := by
  cases o with
  | slot c i k => exact ho
  | large i =>
    have hlt : i < g.large.length := (List.getElem?_eq_some_iff.1 ho).1
    exact (List.getElem?_append_left hlt).trans ho

end Places

variable {β : Type} {B : Allocator β} {holds : List Slice → β × Machine → Prop}
  {s t : (GeneralPurpose × β) × Machine} {blocks : List Slice} {mem block span : Slice}
  {size align c i k : Nat} {o : Owner} {r : Answer}

/-- Putting up a bucket moves no place. -/
theorem Roomed.spans {found : Except AllocError Nat} (h : Roomed B c s found t)
    (ho : s.1.1.Spans o span) : t.1.1.Spans o span := by
  cases h with
  | found _ _ => exact ho
  | refused _ => exact ho
  | created hc _ _ =>
    refine ho.setBuckets hc fun i b hi => ⟨b, ?_, ⟨rfl, rfl, rfl⟩, fun _ hk => hk⟩
    have hlt := (List.getElem?_eq_some_iff.1 hi).1
    exact (List.getElem?_append_left hlt).trans hi

theorem Kept.spans_alloc (hB : Supply B Slice.Meets holds) (h : Kept holds blocks s)
    (ha : GeneralPurpose.alloc B size align s = .ok (r, t)) (ho : s.1.1.Spans o span) :
    t.1.1.Spans o span := by
  rcases alloc_ok ha with ⟨_, _, rfl⟩ | ⟨_, _, ⟨c, _, hsmall⟩ | hlarge⟩
  · exact ho
  · rcases allocSmall_ok hsmall with
      ⟨_, _, _, hroom⟩ | ⟨index, u, bs, b, _, b', _, hroom, hc, hi, htake, _, rfl⟩
    · exact hroom.spans ho
    · have hsound := ((h.roomed hB hroom).sound.mem_bucket hc hi).1
      have hlt := (List.getElem?_eq_some_iff.1 hi).1
      refine (hroom.spans ho).setBuckets hc fun j b₁ hj => ?_
      by_cases hij : index = j
      · subst hij
        obtain rfl : b = b₁ := Option.some.inj (hi.symm.trans hj)
        exact ⟨b', List.getElem?_set_self hlt, Bucket.takeSlot_shape htake,
          fun _ hk => Bucket.get_of_takeSlot hsound htake hk⟩
      · exact ⟨b₁, (List.getElem?_set_ne hij).trans hj, ⟨rfl, rfl, rfl⟩, fun _ hk => hk⟩
  · obtain ⟨u, ⟨_, _, _, rfl⟩ | ⟨mem, _, _, _, rfl⟩⟩ := allocLarge_ok hlarge
    · exact ho
    · exact ho.push mem

/-- A request is answered apart from all places that there are. -/
theorem Kept.disjoint_alloc (hB : Supply B Slice.Meets holds) (h : Kept holds blocks s)
    (ha : GeneralPurpose.alloc B size align s = .ok (.ok block, t)) (ho : s.1.1.Spans o span) :
    block.Disjoint span := by
  obtain ⟨tenant, hmem, hst⟩ := h.tenant hB ho
  have hspan := h.spans_alloc hB ha ho
  rcases h.alloc hB ha with ⟨_, hbad, _⟩ | ⟨_, heq, _, _, hk⟩
  · cases hbad
  cases heq
  obtain ⟨o', place, _, ho', hst'⟩ := hk.found hB List.mem_cons_self
  refine (ho'.disjoint (hk.spread hB) hspan ?_).mono hst'.inside (.refl span)
  -- in the place of the tenant no other block starts
  rintro rfl
  obtain rfl := hspan.unique ho'
  have hdistinct : ((block :: blocks).map (·.addr)).Nodup :=
    hk.fills.addrs.nodup_iff.2 ((hk.spread hB).addrs_nodup hk.sound)
  exact (List.nodup_cons.1 hdistinct).1
    (List.mem_map.2 ⟨tenant, hmem, hst.addr.trans hst'.addr.symm⟩)

/-- A slice that does not reach beyond the place it starts at can be copied to such an answer. -/
theorem Kept.copiesApart (hB : Supply B Slice.Meets holds) (h : Kept holds blocks s)
    (ha : GeneralPurpose.alloc B size align s = .ok (.ok block, t)) (ho : s.1.1.Spans o span)
    (haddr : span.addr = mem.addr) (hlen : mem.len ≤ span.len) : mem.CopiesApart block := by
  have hin : mem.Inside span :=
    ⟨Nat.le_of_eq haddr, by rw [haddr]; exact Nat.add_le_add_left hlen _⟩
  exact ((h.disjoint_alloc hB ha ho).symm.mono hin (.refl block)).copiesApart

/-! ### Exactly what a resize does -/

/-- Resizing behind comes last; if it is not refused, the entry at position `i` is exchanged. -/
def exchanging (g : GeneralPurpose) (i old size : Nat)
    (r : Except Breakdown (Answer × β × Machine)) :
    Except Breakdown (Answer × (GeneralPurpose × β) × Machine) :=
  r.map fun u => match u.1 with
    | .error e => (.error e, ((g, u.2.1), u.2.2))
    | .ok resized => (.ok resized, (({ g with large := g.large.set i resized }, u.2.1),
        u.2.2.report [.largeResize old size resized.addr]))

/-- How the block in slot `k` of bucket `i` of class `c` gives way to `block`: that is what a
request gets, elsewhere and apart from all blocks there are; after the bytes are copied, the slot is
freed where it is, and nothing starts there any more. -/
structure GivesWay (B : Allocator β) (live : List (Lease (GeneralPurpose × β))) (mem : Slice)
    (size align c i k : Nat) (s : (GeneralPurpose × β) × Machine) (block : Slice)
    (t : (GeneralPurpose × β) × Machine) : Prop where
  elsewhere : block.addr ≠ mem.addr
  apart : ∀ lease ∈ live, block.Disjoint lease.block
  freed : ∃ u, GeneralPurpose.alloc B size align s = .ok (.ok block, u) ∧
    free B mem (u.1, u.2.mapMemory (·.copyCommon mem block)) = .ok ((), t) ∧
    ∃ bs b b', FreesSlot B mem c i k (u.1, u.2.mapMemory (·.copyCommon mem block)) bs b b'
  gone : t.1.1.owner mem.addr = .ok none

/-- Neither null nor to no bytes, and with an alignment that is a power of two. -/
structure Proper (mem : Slice) (size align : Nat) : Prop where
  nonnull : mem.isNull = false
  some_bytes : size ≠ 0
  two_pow : ∃ k, normalizeAlign align = 2 ^ k

/-- How moving the small block that starts where `mem` does breaks off: nobody checks the length
of `mem`, and the bytes that it names reach into those that are written of the block elsewhere. -/
structure Overlaps (B : Allocator β) (mem : Slice) (size align : Nat)
    (s : (GeneralPurpose × β) × Machine) (brk : Breakdown) : Prop where
  proper : Proper mem size align
  small : ∃ c i k, s.1.1.owner mem.addr = .ok (some (.slot c i k)) ∧
    s.1.1.sizeClass size (normalizeAlign align) ≠ .ok (some c)
  copied : ∃ fresh t, GeneralPurpose.alloc B size (normalizeAlign align) s = .ok (.ok fresh, t) ∧
    ¬ mem.CopiesApart fresh ∧ brk = t.2.breakOff .copyOverlap

/-- What resizing `mem` does. At most one place starts at its address, and one does if and only if a
lease does; `stranger` is about all other slices, `stays` and `moves` about slots and `large` about
large blocks. -/
structure ExactResize (B : Allocator β) (live : List (Lease (GeneralPurpose × β)))
    (s : (GeneralPurpose × β) × Machine) (mem : Slice) (size align : Nat) : Prop where
  leased : (∃ lease ∈ live, lease.block.addr = mem.addr) ↔
    ∃ o span, s.1.1.Spans o span ∧ span.addr = mem.addr
  sole : ∀ o o' span span', s.1.1.Spans o span → s.1.1.Spans o' span' → span.addr = mem.addr →
    span'.addr = mem.addr → o = o'
  null : mem.isNull = true →
    (allocator B).resize mem size align s = (allocator B).alloc size align s
  zero : mem.isNull = false → size = 0 → (allocator B).resize mem size align s =
    (free B mem s).map fun u => (.ok .null, u.2)
  invalid : mem.isNull = false → size ≠ 0 → (¬ ∃ k, normalizeAlign align = 2 ^ k) →
    (allocator B).resize mem size align s = .ok (.error (.invalidLayout size align), s)
  stranger : Proper mem size align → (∀ lease ∈ live, lease.block.addr ≠ mem.addr) →
    (allocator B).resize mem size align s = .ok (.error .notOwned, s)
  stays : Proper mem size align → ∀ c i k span, s.1.1.Spans (.slot c i k) span →
    span.addr = mem.addr → s.1.1.sizeClass size (normalizeAlign align) = .ok (some c) →
    (allocator B).resize mem size align s = .ok (.ok ⟨mem.addr, size⟩,
      (s.1, s.2.report [.resizeWithinClass mem.len size c]))
  moves : Proper mem size align → ∀ c i k span, s.1.1.Spans (.slot c i k) span →
    span.addr = mem.addr → s.1.1.sizeClass size (normalizeAlign align) ≠ .ok (some c) →
    ∀ r t, (allocator B).resize mem size align s = .ok (r, t) →
      (∃ e, r = .error e ∧
        GeneralPurpose.alloc B size (normalizeAlign align) s = .ok (.error e, t)) ∨
      ∃ block, r = .ok block ∧
        GivesWay B live mem size (normalizeAlign align) c i k s block t
  large : Proper mem size align → ∀ i entry, s.1.1.Spans (.large i) entry →
    entry.addr = mem.addr → (allocator B).resize mem size align s =
      exchanging s.1.1 i entry.len size
        (B.resize entry size (normalizeAlign align) (s.1.2, s.2))
  answers : size ≠ 0 → ∀ block t, (allocator B).resize mem size align s = .ok (.ok block, t) →
    block.Meets size align

theorem resize_proper (h : Proper mem size align) :
    (allocator B).resize mem size align = adjust B mem size (normalizeAlign align) :=
  resizeBy_valid h.nonnull h.some_bytes h.two_pow

theorem adjust_unknown (howner : s.1.1.owner mem.addr = .ok none) :
    adjust B mem size align s = .ok (.error .notOwned, s) := by
  obtain ⟨⟨g, b⟩, m⟩ := s
  simp only [adjust, Act.bind_apply, Act.own_apply, Except.bind, Act.lift_apply, howner,
    Act.mapError_ok, Except.map, Act.pure_apply]

theorem adjust_within (howner : s.1.1.owner mem.addr = .ok (some (.slot c i k)))
    (hclass : s.1.1.sizeClass size align = .ok (some c)) :
    adjust B mem size align s = .ok (.ok ⟨mem.addr, size⟩,
      (s.1, s.2.report [.resizeWithinClass mem.len size c])) := by
  obtain ⟨⟨g, b⟩, m⟩ := s
  simp only at howner hclass
  simp only [adjust, Act.bind_apply, Act.own_apply, Except.bind, Act.lift_apply, howner,
    Act.mapError_ok, Except.map, hclass, if_true, Act.emit_apply, Act.pure_apply, Machine.report]

theorem adjust_beyond (howner : s.1.1.owner mem.addr = .ok (some (.slot c i k)))
    (hclass : s.1.1.sizeClass size align ≠ .ok (some c)) :
    adjust B mem size align s =
      relocate (GeneralPurpose.alloc B) (free B) mem size align s := by
  obtain ⟨⟨g, b⟩, m⟩ := s
  simp only at howner hclass
  obtain ⟨found, hfound⟩ := g.sizeClass_returns size align
  have hne : found ≠ some c := fun heq => hclass (hfound.trans (congrArg Except.ok heq))
  simp only [adjust, Act.bind_apply, Act.own_apply, Except.bind, Act.lift_apply, howner,
    Act.mapError_ok, Except.map, hfound, if_neg hne]

theorem adjust_large {entry : Slice} (howner : s.1.1.owner mem.addr = .ok (some (.large i)))
    (hi : s.1.1.large[i]? = some entry) :
    adjust B mem size align s =
      exchanging s.1.1 i entry.len size (B.resize entry size align (s.1.2, s.2)) := by
  obtain ⟨⟨g, b⟩, m⟩ := s
  simp only at howner hi
  simp only [adjust, Act.bind_apply, Act.own_apply, Except.bind, Act.lift_apply, howner,
    Act.mapError_ok, Except.map, resizeLarge, elementAt_ok.2 hi, Act.below_apply, exchanging]
  rcases B.resize entry size align (b, m) with brk | ⟨e | resized, u⟩
  · rfl
  · rfl
  · rfl

namespace Overlaps

variable {brk : Breakdown}

theorem resize_eq (h : Overlaps B mem size align s brk) :
    (allocator B).resize mem size align s = .error brk := by
  obtain ⟨c, i, k, howner, hclass⟩ := h.small
  obtain ⟨fresh, t, ha, hover, rfl⟩ := h.copied
  rw [resize_proper h.proper, adjust_beyond howner hclass]
  exact relocate_overlap ha hover

theorem long (hB : Supply B Slice.Meets holds) (hk : Kept holds blocks s)
    (h : Overlaps B mem size align s brk) : ∃ c i k,
      s.1.1.owner mem.addr = .ok (some (.slot c i k)) ∧ 2 ^ c < mem.len := by
  obtain ⟨c, i, k, howner, _⟩ := h.small
  obtain ⟨fresh, t, ha, hover, _⟩ := h.copied
  obtain ⟨span, ho, haddr⟩ := owner_spans hk.sound howner
  refine ⟨c, i, k, howner, Nat.lt_of_not_le fun hlen => hover ?_⟩
  rw [← ho.slot_size hk.sound] at hlen
  exact hk.copiesApart hB ha ho haddr hlen

end Overlaps

namespace Lodged

variable {live : List (Lease (GeneralPurpose × β))}

/-- A place starts at an address if and only if a lease does. -/
theorem leased_iff (hB : Supply B Slice.Meets holds) (h : Lodged holds live s) (addr : Nat) :
    (∃ lease ∈ live, lease.block.addr = addr) ↔
      ∃ o span, s.1.1.Spans o span ∧ span.addr = addr := by
  constructor
  · rintro ⟨lease, hl, rfl⟩
    obtain ⟨o, span, _, ho, hst⟩ := h.kept.found hB (List.mem_map_of_mem hl)
    exact ⟨o, span, ho, hst.addr.symm⟩
  · rintro ⟨o, span, ho, rfl⟩
    obtain ⟨block, hb, hst⟩ := h.kept.tenant hB ho
    obtain ⟨lease, hl, rfl⟩ := List.mem_map.1 hb
    exact ⟨lease, hl, hst.addr⟩

theorem owner_eq (hB : Supply B Slice.Meets holds) (h : Lodged holds live s)
    (ho : s.1.1.Spans o span) (haddr : span.addr = mem.addr) :
    s.1.1.owner mem.addr = .ok (some o) := by
  rw [← haddr]
  exact owner_of_spans h.kept.sound (h.kept.spread hB) (h.kept.bounded hB) ho

/-- A block in a slot that is moved gives way to the one that the request got. -/
theorem givesWay (hB : Supply B Slice.Meets holds) (h : Lodged holds live s)
    (hn : mem.isNull = false) (ho : s.1.1.Spans (.slot c i k) span) (haddr : span.addr = mem.addr)
    {u : (GeneralPurpose × β) × Machine}
    (ha : GeneralPurpose.alloc B size align s = .ok (.ok block, u))
    (hf : GeneralPurpose.free B mem (u.1, u.2.mapMemory (·.copyCommon mem block)) = .ok ((), t)) :
    GivesWay B live mem size align c i k s block t := by
  have hnew : Lodged holds (.fresh s block size align none :: live) u := h.alloc hB ha
  have hcopied : Lodged holds (.fresh s block size align none :: live)
      (u.1, u.2.mapMemory (·.copyCommon mem block)) :=
    hnew.write hB ((Memory.writtenIn_copyCommon _ _ _).mem List.mem_cons_self)
  have hfree := hcopied.exactFree hB mem
  obtain ⟨lease, hl, hlease⟩ := (h.leased_iff hB mem.addr).2 ⟨_, span, ho, haddr⟩
  refine ⟨?_, ?_, ⟨u, ha, hf, ?_⟩, hfree.gone hn t hf⟩
  · intro heq
    exact (Distinct.cons_iff.1 (hnew.distinct hB)).1 lease hl (hlease.trans heq.symm)
  · intro other hother
    exact (List.pairwise_cons.1 (hnew.kept.apart hB)).1 _ (List.mem_map_of_mem hother)
  · have hstill : u.1.1.Spans (.slot c i k) span := h.kept.spans_alloc hB ha ho
    exact hfree.slot hn c i k span hstill haddr

theorem exactResize (hB : Supply B Slice.Meets holds) (h : Lodged holds live s) (mem : Slice)
    (size align : Nat) : ExactResize B live s mem size align where
  leased := h.leased_iff hB mem.addr
  sole o o' span span' ho ho' haddr haddr' := by
    have howner := (h.owner_eq hB ho haddr).symm.trans (h.owner_eq hB ho' haddr')
    exact Option.some.inj (Except.ok.inj howner)
  null hn := congrFun (resizeBy_null hn) s
  zero hn hs := by
    rw [hs, (orderly B).resize_zero hn, Act.bind_apply]
    change Except.bind (GeneralPurpose.free B mem s) _ = _
    rcases GeneralPurpose.free B mem s with brk | u
    · rfl
    · rfl
  invalid hn hs hpow := congrFun (resizeBy_invalid hn hs hpow) s
  stranger hproper hnone := by
    rw [resize_proper hproper]
    refine adjust_unknown (h.kept.not_found hB ?_)
    intro block hb
    obtain ⟨lease, hl, rfl⟩ := List.mem_map.1 hb
    exact hnone lease hl
  stays hproper c i k span ho haddr hclass := by
    rw [resize_proper hproper]
    exact adjust_within (h.owner_eq hB ho haddr) hclass
  moves hproper c i k span ho haddr hclass r t hr := by
    rw [resize_proper hproper, adjust_beyond (h.owner_eq hB ho haddr) hclass] at hr
    rcases relocate_ok hr with hrefused | ⟨block, u, rfl, ha, hf⟩
    · exact .inl hrefused
    · exact .inr ⟨block, rfl, h.givesWay hB hproper.nonnull ho haddr ha hf⟩
  large hproper i entry ho haddr := by
    rw [resize_proper hproper]
    exact adjust_large (h.owner_eq hB ho haddr) ho
  answers hs block t hr := by
    cases hn : mem.isNull with
    | true =>
      rw [(orderly B).resize_null hn] at hr
      rcases h.kept.alloc hB hr with ⟨_, hbad, _⟩ | ⟨_, hans, _, hmeets, _⟩
      · cases hbad
      · cases hans
        exact hmeets
    | false =>
      rcases h.kept.resize hB hn hs hr with ⟨_, hbad, _⟩ | ⟨_, _, _, hans, _, _, hmeets, _⟩
      · cases hbad
      · cases hans
        exact hmeets

end Lodged
end GeneralPurpose

/-- However a client resizes and frees, over any supply of disjoint blocks that meet their requests,
and however often it destroys the allocator: resizing is exact, for every slice there is. -/
theorem exactResize_of_confined {β : Type} {B : Allocator β}
    {holds : List Slice → β × Machine → Prop} {bucketSize : Nat} {b : β} {m : Machine}
    {live : List (Lease (GeneralPurpose × β))} {s : (GeneralPurpose × β) × Machine}
    (hB : Supply B Slice.Meets holds) (hstart : holds [] (b, m))
    (hrun : Run (GeneralPurpose.allocator B) [GeneralPurpose.destroy B] Confined
      ((GeneralPurpose.new bucketSize, b), m) live s) (mem : Slice) (size align : Nat) :
    GeneralPurpose.ExactResize B live s mem size align := by
  exact (GeneralPurpose.Lodged.of_run hB hstart hrun).exactResize hB mem size align

/-- A client that resizes a slot within its class and out of it, a large block under a wrong length,
and the middle of a block, over a fixed region. -/
theorem exactResize_of_wrong_lengths :
    ∃ live s, Run (GeneralPurpose.allocator Fixed.allocator)
        [GeneralPurpose.destroy Fixed.allocator] Confined
        ((GeneralPurpose.new 64, ⟨64, 1024, 0⟩), ⟨.zero, [], []⟩) live s ∧
      live.map (·.block) = [⟨384, 40⟩, ⟨160, 200⟩] ∧
      ∀ mem size align, GeneralPurpose.ExactResize Fixed.allocator live s mem size align := by
  have hlast : ((GeneralPurpose.allocator Fixed.allocator).play Confined
      [.alloc 10 8, .resize ⟨80, 10⟩ 14 8, .alloc 100 16, .resize ⟨160, 3⟩ 200 16,
        .resize ⟨81, 1⟩ 9 8, .resize ⟨80, 14⟩ 40 8] []
      ((GeneralPurpose.new 64, ⟨64, 1024, 0⟩), ⟨.zero, [], []⟩)).map (·.1.map (·.block)) =
        some [⟨384, 40⟩, ⟨160, 200⟩] := by
    decide +kernel
  obtain ⟨⟨live, s⟩, hplay, hlive⟩ := Option.map_eq_some_iff.1 hlast
  have hrun : Run (GeneralPurpose.allocator Fixed.allocator)
      [GeneralPurpose.destroy Fixed.allocator] Confined _ live s := Run.start.play hplay
  have hsupply : Supply Fixed.allocator Slice.Meets (Stacking.Holds Fixed.Kept) :=
    Fixed.stacking.contract.supply.mono fun _ _ _ h => h.1
  exact ⟨live, s, hrun, hlive,
    exactResize_of_confined hsupply (Fixed.holds_nil (by decide)) hrun⟩

end AllocChain
