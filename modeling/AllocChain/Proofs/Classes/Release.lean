import AllocChain.Proofs.Classes.Lookup
import AllocChain.Proofs.Classes.Partition

/-!
What freeing a slice does to a general-purpose allocator, whatever the slice is (`ExactFree`). If a
block starts at its address, the slot or the large block that it lies in is given back, and nothing
else changes; if none does, nothing changes at all and the allocator behind is not called. The
equations say what freeing returns, so where the allocator behind returns, it does too.
-/

namespace AllocChain

open Lease

namespace GeneralPurpose

variable {β : Type} {B : Allocator β} {s t : (GeneralPurpose × β) × Machine} {mem : Slice}
  {c i k : Nat} {bs : List Bucket} {b b' : Bucket}

theorem free_null (hn : mem.isNull = true) : free B mem s = .ok ((), s) := by
  simp only [free, hn, if_true]
  rfl

theorem free_unknown (hn : mem.isNull = false) (howner : s.1.1.owner mem.addr = .ok none) :
    free B mem s = .ok ((), (s.1, s.2.report [.freeUnrecognised mem.addr])) := by
  obtain ⟨⟨g, b⟩, m⟩ := s
  simp only [free, hn, Bool.false_eq_true, if_false, Act.bind_apply, Act.own_apply, Except.bind,
    Act.lift_apply, howner, Act.mapError_ok, Except.map, Act.emit_apply, Machine.report]

/-- Freeing behind comes last, with the table already as it will be. -/
def passing (g : GeneralPurpose) (r : Except Breakdown (Unit × β × Machine)) :
    Except Breakdown (Unit × (GeneralPurpose × β) × Machine) :=
  r.map fun u => ((), ((g, u.2.1), u.2.2))

theorem passing_ok {g : GeneralPurpose} {r : Except Breakdown (Unit × β × Machine)} :
    passing g r = .ok ((), t) ↔ ∃ u, r = .ok ((), u) ∧ t = ((g, u.1), u.2) := by
  rcases r with e | ⟨⟨⟩, u⟩ <;> simp [passing, Except.map, eq_comm]

theorem free_large {i : Nat} {entry : Slice} (hn : mem.isNull = false)
    (howner : s.1.1.owner mem.addr = .ok (some (.large i))) (hi : s.1.1.large[i]? = some entry) :
    free B mem s = passing { s.1.1 with large := swapRemove s.1.1.large i }
      (B.free entry (s.1.2, s.2.report [.largeFree entry.addr entry.len])) := by
  obtain ⟨⟨g, b⟩, m⟩ := s
  simp only at howner hi
  simp only [free, hn, Bool.false_eq_true, if_false, Act.bind_apply, Act.own_apply, Except.bind,
    Act.lift_apply, howner, Act.mapError_ok, Except.map, releaseLarge, elementAt_ok.2 hi,
    Act.setOwn_apply, Act.emit_apply, Act.below_apply, Machine.report, passing]

theorem free_slot_kept (hn : mem.isNull = false)
    (howner : s.1.1.owner mem.addr = .ok (some (.slot c i k)))
    (hc : s.1.1.classes.toList[c]? = some bs) (hi : bs[i]? = some b)
    (hrel : b.releaseSlot k = .ok b') (hbusy : b'.usedCount ≠ 0) :
    free B mem s = .ok ((), ((s.1.1.setBuckets c (bs.set i b'), s.1.2),
      s.2.report [.smallFree c k])) := by
  obtain ⟨⟨g, b⟩, m⟩ := s
  simp only at howner hc
  simp only [free, hn, Bool.false_eq_true, if_false, Act.bind_apply, Act.own_apply, Except.bind,
    Act.lift_apply, howner, Act.mapError_ok, Except.map, releaseSlot, bucketsOf_ok.2 hc,
    elementAt_ok.2 hi, hrel, Act.emit_apply, if_neg hbusy, Act.setOwn_apply, Machine.report]

theorem free_slot_emptied {occupied : BitSet 1} (hn : mem.isNull = false)
    (howner : s.1.1.owner mem.addr = .ok (some (.slot c i k)))
    (hc : s.1.1.classes.toList[c]? = some bs) (hi : bs[i]? = some b)
    (hrel : b.releaseSlot k = .ok b') (hzero : b'.usedCount = 0)
    (hocc : (if bs.eraseIdx i = [] then (s.1.1.occupied.erase c).result else .ok s.1.1.occupied) =
      .ok occupied) :
    free B mem s = passing { s.1.1.setBuckets c (bs.eraseIdx i) with occupied }
      (B.free b.storage (s.1.2,
        s.2.report [.smallFree c k, .bucketReleased b.objSize b.storage.addr])) := by
  have hshape := Bucket.releaseSlot_shape hrel
  obtain ⟨⟨g, b₀⟩, m⟩ := s
  simp only at howner hc hocc
  by_cases hlast : bs.eraseIdx i = []
  · rw [if_pos hlast] at hocc
    simp only [free, hn, Bool.false_eq_true, if_false, Act.bind_apply, Act.own_apply, Except.bind,
      Act.lift_apply, howner, Act.mapError_ok, Except.map, releaseSlot, bucketsOf_ok.2 hc,
      elementAt_ok.2 hi, hrel, Act.emit_apply, if_pos hzero, if_pos hlast, hocc, Act.setOwn_apply,
      Act.below_apply, Machine.report, passing, hshape.storage, hshape.objSize, List.append_assoc,
      List.cons_append, List.nil_append]
  · rw [if_neg hlast] at hocc
    cases hocc
    simp only [free, hn, Bool.false_eq_true, if_false, Act.bind_apply, Act.own_apply, Except.bind,
      Act.lift_apply, howner, Act.mapError_ok, Except.map, releaseSlot, bucketsOf_ok.2 hc,
      elementAt_ok.2 hi, hrel, Act.emit_apply, if_pos hzero, if_neg hlast, Act.setOwn_apply,
      Act.below_apply, Machine.report, passing, hshape.storage, hshape.objSize, List.append_assoc,
      List.cons_append, List.nil_append, Act.pure_apply]

/-- How the slot `k` of bucket `i` of class `c` is freed: its bit is cleared and its bucket, `b`
before and `b'` after, has one slot less in use. If that was the last one, the bucket is taken down
and its storage given back. -/
structure FreesSlot (B : Allocator β) (mem : Slice) (c i k : Nat)
    (s : (GeneralPurpose × β) × Machine) (bs : List Bucket) (b b' : Bucket) : Prop where
  row : s.1.1.classes.toList[c]? = some bs
  bucket : bs[i]? = some b
  shape : b.SameShape b'
  bits : ∀ j, b'.slots.get j = (decide (j ≠ k) && b.slots.get j)
  used : b'.usedCount + 1 = b.usedCount
  kept : b.usedCount ≠ 1 → free B mem s = .ok ((),
    ((s.1.1.setBuckets c (bs.set i b'), s.1.2), s.2.report [.smallFree c k]))
  emptied : b.usedCount = 1 → ∃ occupied : BitSet 1,
    (∀ c', occupied.test c' =
      if c' = c then decide (bs.eraseIdx i ≠ []) else s.1.1.occupied.test c') ∧
    free B mem s = passing { s.1.1.setBuckets c (bs.eraseIdx i) with occupied }
      (B.free b.storage (s.1.2,
        s.2.report [.smallFree c k, .bucketReleased b.objSize b.storage.addr]))

/-- What freeing `mem` does. The leases belong to the taken slots and the large blocks one by one;
`stranger` is about every slice that starts where no lease does, and `others` about the leases that
are not freed. -/
structure ExactFree (B : Allocator β) (live : List (Lease (GeneralPurpose × β)))
    (s : (GeneralPurpose × β) × Machine) (mem : Slice) : Prop where
  home : ∀ lease ∈ live, ∃! o, ∃ span, s.1.1.Spans o span ∧ lease.block.Starts span
  tenant : ∀ o span, s.1.1.Spans o span → ∃ lease ∈ live, lease.block.Starts span
  null : mem.isNull = true → free B mem s = .ok ((), s)
  stranger : mem.isNull = false → (∀ lease ∈ live, lease.block.addr ≠ mem.addr) →
    free B mem s = .ok ((), (s.1, s.2.report [.freeUnrecognised mem.addr]))
  slot : mem.isNull = false → ∀ c i k span, s.1.1.Spans (.slot c i k) span →
    span.addr = mem.addr → ∃ bs b b', FreesSlot B mem c i k s bs b b'
  large : mem.isNull = false → ∀ i entry, s.1.1.Spans (.large i) entry → entry.addr = mem.addr →
    s.1.1.large.Perm (entry :: swapRemove s.1.1.large i) ∧
      free B mem s = passing { s.1.1 with large := swapRemove s.1.1.large i }
        (B.free entry (s.1.2, s.2.report [.largeFree entry.addr entry.len]))
  others : ∀ t, free B mem s = .ok ((), t) → ∀ lease ∈ live,
    mem.isNull = true ∨ lease.block.addr ≠ mem.addr →
    ∃ o span, t.1.1.owner lease.block.addr = .ok (some o) ∧ t.1.1.Spans o span ∧
      lease.block.Starts span
  gone : mem.isNull = false → ∀ t, free B mem s = .ok ((), t) → t.1.1.owner mem.addr = .ok none

variable {holds : List Slice → β × Machine → Prop} {blocks : List Slice} {block : Slice}

namespace Kept

theorem bounded (hB : Supply B Slice.Meets holds) (h : Kept holds blocks s) :
    ∀ b ∈ s.1.1.buckets, b.storage.Bounded :=
  fun _ hb => hB.bounded h.backed _ (List.mem_append_left _ (List.mem_map_of_mem hb))

theorem found (hB : Supply B Slice.Meets holds) (h : Kept holds blocks s) (hb : block ∈ blocks) :
    ∃ o span, s.1.1.owner block.addr = .ok (some o) ∧ s.1.1.Spans o span ∧
      block.Starts span := by
  obtain ⟨span, hspan, hst⟩ := h.fills.starts block hb
  obtain ⟨o, ho⟩ := mem_places.1 hspan
  have howner := owner_of_spans h.sound (h.spread hB) (h.bounded hB) ho
  rw [← hst.addr] at howner
  exact ⟨o, span, howner, ho, hst⟩

theorem not_found (hB : Supply B Slice.Meets holds) (h : Kept holds blocks s) {addr : Nat}
    (hnone : ∀ block ∈ blocks, block.addr ≠ addr) : s.1.1.owner addr = .ok none := by
  refine owner_of_stranger h.sound (h.bounded hB) ?_
  intro span hspan heq
  have haddr := h.fills.addrs.mem_iff.2 (List.mem_map_of_mem hspan)
  obtain ⟨block, hb, hblock⟩ := List.mem_map.1 haddr
  exact hnone block hb (hblock.trans heq)

theorem tenant (hB : Supply B Slice.Meets holds) (h : Kept holds blocks s) {o : Owner}
    {span : Slice} (ho : s.1.1.Spans o span) : ∃ block ∈ blocks, block.Starts span := by
  obtain ⟨rest, hsplit⟩ := ho.split
  obtain ⟨block, _, hp, hst, _⟩ := h.uncons hB hsplit
  exact ⟨block, hp.mem_iff.2 List.mem_cons_self, hst⟩

theorem home (hB : Supply B Slice.Meets holds) (h : Kept holds blocks s) (hb : block ∈ blocks) :
    ∃! o, ∃ span, s.1.1.Spans o span ∧ block.Starts span := by
  obtain ⟨o, span, _, ho, hst⟩ := h.found hB hb
  refine ⟨o, ⟨span, ho, hst⟩, ?_⟩
  rintro o' ⟨span', ho', hst'⟩
  have hhas := Slice.has_addr hst.pos
  exact ho'.eq_of_has (h.spread hB) ho (hst'.inside.has hhas) (hst.inside.has hhas)

/-- Freeing where a slot starts gives back that slot. -/
theorem freesSlot (hB : Supply B Slice.Meets holds) (h : Kept holds blocks s)
    (hn : mem.isNull = false) {span : Slice} (ho : s.1.1.Spans (.slot c i k) span)
    (haddr : span.addr = mem.addr) : ∃ bs b b', FreesSlot B mem c i k s bs b b' := by
  have howner := owner_of_spans h.sound (h.spread hB) (h.bounded hB) ho
  rw [haddr] at howner
  obtain ⟨bs, b, hc, hi, hk, _⟩ := ho
  have hsound := (h.sound.mem_bucket hc hi).1
  obtain ⟨b', hrel, hbits, hused⟩ := Bucket.releaseSlot_returns hsound hk
  refine ⟨bs, b, b', hc, hi, Bucket.releaseSlot_shape hrel, hbits, hused, ?_, ?_⟩
  · intro hmore
    exact free_slot_kept hn howner hc hi hrel (by omega)
  · intro hlast
    have hzero : b'.usedCount = 0 := by omega
    have hmark := (h.sound.mem_bucket hc hi).2
    by_cases hnil : bs.eraseIdx i = []
    · obtain ⟨occupied, hocc⟩ := erase_returns hc
      refine ⟨occupied, ?_, free_slot_emptied hn howner hc hi hrel hzero ?_⟩
      · intro c'
        rw [BitSet.test_erase hocc]
        by_cases hcc : c' = c <;> simp [hcc, hnil]
      · rw [if_pos hnil]
        exact hocc
    · refine ⟨s.1.1.occupied, ?_, free_slot_emptied hn howner hc hi hrel hzero (if_neg hnil)⟩
      intro c'
      by_cases hcc : c' = c
      · rw [if_pos hcc, hcc, hmark, decide_eq_true hnil]
      · rw [if_neg hcc]

/-- Freeing a block comes to an end, if giving back what the table stands on does. -/
theorem free_returns (hB : Supply B Slice.Meets holds) (h : Kept holds (mem :: blocks) s)
    (hreturns : ∀ {out block u}, holds (block :: out) u → ∃ v, B.free block u = .ok ((), v))
    (hn : mem.isNull = false) : ∃ t, GeneralPurpose.free B mem s = .ok ((), t) := by
  obtain ⟨o, span, howner, ho, hst⟩ := h.found hB List.mem_cons_self
  cases o with
  | slot c i k =>
    obtain ⟨bs, b, b', hfrees⟩ := h.freesSlot hB hn ho hst.addr.symm
    by_cases hlast : b.usedCount = 1
    · obtain ⟨occupied, _, heq⟩ := hfrees.emptied hlast
      have hall : s.1.1.held.Perm (b.storage ::
          held { s.1.1.setBuckets c (bs.eraseIdx i) with occupied }) :=
        held_eraseIdx hfrees.row hfrees.bucket
      obtain ⟨v, hv⟩ := hreturns (hB.report (hB.perm hall h.backed))
      exact ⟨_, heq.trans (passing_ok.2 ⟨v, hv, rfl⟩)⟩
    · exact ⟨_, hfrees.kept hlast⟩
  | large i =>
    obtain ⟨rest, hall, _⟩ := held_large ho
    obtain ⟨v, hv⟩ := hreturns (hB.report (hB.perm hall h.backed))
    exact ⟨_, (free_large hn howner ho).trans (passing_ok.2 ⟨v, hv, rfl⟩)⟩

theorem destroy (hB : Supply B Slice.Meets holds) (h : Kept holds blocks s)
    (hd : GeneralPurpose.destroy B s = .ok ((), t)) : Kept holds [] t := by
  obtain ⟨hown, hback⟩ := destroy_ok hB.toLedger hd h.backed
  have hsound : t.1.1.Sound := by
    rw [hown]
    exact .cleared s.1.1
  have hnil : t.1.1.buckets = [] := by
    rw [hown]
    exact buckets_new 0
  have hlarge : t.1.1.large = [] := by
    rw [hown]
  refine ⟨hsound, ?_, ?_, ?_, ?_⟩
  · rw [held, hnil, hlarge]
    exact hback
  · rw [hnil]
    simp
  · rw [hlarge]
    simp
  · rw [places, hnil, hlarge]
    exact ⟨.nil, by simp⟩

end Kept

namespace Lodged

variable {live : List (Lease (GeneralPurpose × β))}

theorem exactFree (hB : Supply B Slice.Meets holds) (h : Lodged holds live s) (mem : Slice) :
    ExactFree B live s mem := by
  have hblock : ∀ {lease}, lease ∈ live → lease.block ∈ live.map (·.block) :=
    fun hl => List.mem_map_of_mem hl
  refine ⟨fun lease hl => h.kept.home hB (hblock hl), ?_, free_null, ?_,
    fun hn c i k span => h.kept.freesSlot hB hn, ?_, ?_, ?_⟩
  · intro o span ho
    obtain ⟨block, hb, hst⟩ := h.kept.tenant hB ho
    obtain ⟨lease, hl, rfl⟩ := List.mem_map.1 hb
    exact ⟨lease, hl, hst⟩
  · intro hn hnone
    refine free_unknown hn (h.kept.not_found hB ?_)
    intro block hb
    obtain ⟨lease, hl, rfl⟩ := List.mem_map.1 hb
    exact hnone lease hl
  · intro hn i entry ho haddr
    have howner := owner_of_spans h.kept.sound (h.kept.spread hB) (h.kept.bounded hB) ho
    rw [haddr] at howner
    exact ⟨swapRemove_perm ho, free_large hn howner ho⟩
  · intro t hf lease hl hother
    have hend := h.free hB hf
    have hl' : lease ∈ after live s (.free mem) (.ok .null) := by
      simp only [after]
      rcases hother with hn | hne
      · rw [if_pos hn]
        exact hl
      · split
        · exact hl
        · exact mem_without.2 ⟨hl, hne⟩
    exact hend.kept.found hB (List.mem_map_of_mem hl')
  · intro hn t hf
    have hend := h.free hB hf
    simp only [after, hn, Bool.false_eq_true, if_false] at hend
    refine hend.kept.not_found hB ?_
    intro block hb
    obtain ⟨lease, hl, rfl⟩ := List.mem_map.1 hb
    exact (mem_without.1 hl).2

/-- Leases are lodged in every state that a client can reach that keeps its writes to its blocks. -/
theorem of_run (hB : Supply B Slice.Meets holds) {bucketSize : Nat} {b : β} {m : Machine}
    (hstart : holds [] (b, m))
    (hrun : Run (allocator B) [GeneralPurpose.destroy B] Confined
      ((GeneralPurpose.new bucketSize, b), m) live s) : Lodged holds live s := by
  induction hrun with
  | start => exact .new bucketSize hstart
  | deed _ hrule hd ih => exact ih.step hB hrule hd
  | sweep _ hx hd ih =>
    rw [List.mem_singleton.1 hx] at hd
    exact ⟨ih.kept.destroy hB hd, by simp⟩

end Lodged
end GeneralPurpose

/-- However a client resizes and frees, over any supply of disjoint blocks that meet their requests,
and however often it destroys the allocator: freeing is exact, for every slice there is. -/
theorem exactFree_of_confined {β : Type} {B : Allocator β}
    {holds : List Slice → β × Machine → Prop} {bucketSize : Nat} {b : β} {m : Machine}
    {live : List (Lease (GeneralPurpose × β))} {s : (GeneralPurpose × β) × Machine}
    (hB : Supply B Slice.Meets holds) (hstart : holds [] (b, m))
    (hrun : Run (GeneralPurpose.allocator B) [GeneralPurpose.destroy B] Confined
      ((GeneralPurpose.new bucketSize, b), m) live s) (mem : Slice) :
    GeneralPurpose.ExactFree B live s mem := by
  have hlodged := GeneralPurpose.Lodged.of_run hB hstart hrun
  exact hlodged.exactFree hB mem

/-- A client that frees a slot twice and a large block with a wrong length, over a fixed region. -/
theorem exactFree_of_double_free :
    ∃ live s, Run (GeneralPurpose.allocator Fixed.allocator)
        [GeneralPurpose.destroy Fixed.allocator] Confined
        ((GeneralPurpose.new 64, ⟨64, 1024, 0⟩), ⟨.zero, [], []⟩) live s ∧
      live.map (·.block) = [⟨160, 200⟩, ⟨80, 10⟩] ∧
      ∀ mem, GeneralPurpose.ExactFree Fixed.allocator live s mem := by
  have hlast : ((GeneralPurpose.allocator Fixed.allocator).play Confined
      [.alloc 10 8, .alloc 12 4, .alloc 100 16, .free ⟨96, 12⟩, .free ⟨96, 12⟩, .free ⟨81, 7⟩,
        .free ⟨160, 3⟩, .alloc 200 16] []
      ((GeneralPurpose.new 64, ⟨64, 1024, 0⟩), ⟨.zero, [], []⟩)).map (·.1.map (·.block)) =
        some [⟨160, 200⟩, ⟨80, 10⟩] := by
    decide +kernel
  obtain ⟨⟨live, s⟩, hplay, hlive⟩ := Option.map_eq_some_iff.1 hlast
  have hrun : Run (GeneralPurpose.allocator Fixed.allocator)
      [GeneralPurpose.destroy Fixed.allocator] Confined _ live s := Run.start.play hplay
  have hsupply : Supply Fixed.allocator Slice.Meets (Stacking.Holds Fixed.Kept) :=
    Fixed.stacking.contract.supply.mono fun _ _ _ h => h.1
  exact ⟨live, s, hrun, hlive,
    exactFree_of_confined hsupply (Fixed.holds_nil (by decide)) hrun⟩

end AllocChain
