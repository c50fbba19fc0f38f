import AllocChain.Proofs.Classes.Custody
import AllocChain.Proofs.Classes.Release
import AllocChain.Proofs.Classes.Shape
import AllocChain.Proofs.Undoing

/-!
Requests of a general-purpose allocator that are undone. A slot that was just taken clears its bit
again, in the bucket that it was taken from; a bucket that was put up for it is then empty and goes,
and with it the mark of its class if it was the only one. A large block goes from the end of the
list. Each time the table is the one that there was.
-/

namespace AllocChain

open Memory

theorem swapRemove_concat {α : Type} (l : List α) (a : α) : swapRemove (l ++ [a]) l.length = l := by
  simp [swapRemove]

namespace Bucket

variable {b b' : Bucket} {c addr : Nat}

/-- Giving back a slot that was just taken restores the bucket. -/
theorem releaseSlot_takeSlot (hb : b.Sound c) (h : b.takeSlot = .ok (some (addr, b'))) :
    ∃ slot, slot < b.slots.length ∧ addr = (b.place slot).addr ∧ b'.slots.get slot = true ∧
      b'.releaseSlot slot = .ok b := by
  obtain ⟨slot, slots, hfirst, hset, haddr, rfl⟩ := takeSlot_eq_some h
  obtain ⟨hlt, hclear, _⟩ := hb.packed.firstClear_eq_some_iff.1 hfirst
  refine ⟨slot, hlt, haddr, ?_, ?_⟩
  · simp [Bitmap.get_set hb.packed hset]
  · simp only [releaseSlot]
    rw [Bitmap.unset_set hb.packed hset hclear, Word.sub_of_le (Nat.le_add_left 1 _)]
    rfl

end Bucket

namespace GeneralPurpose

variable {β : Type} {B : Allocator β} {g : GeneralPurpose} {bs new : List Bucket} {b b' : Bucket}
  {c i n size align addr : Nat} {occupied : BitSet 1} {block : Slice}
  {s s' t : (GeneralPurpose × β) × Machine}

/-! ### Tables that are changed twice -/

theorem setBuckets_setBuckets :
    ({ g.setBuckets c new with occupied } : GeneralPurpose).setBuckets c bs =
      { g.setBuckets c bs with occupied } := by
  have hclasses : ((g.setBuckets c new).setBuckets c bs).classes = (g.setBuckets c bs).classes := by
    rw [← Vector.toList_inj, classes_setBuckets, classes_setBuckets, classes_setBuckets,
      List.set_set]
  obtain ⟨bucketSize, classes, _, large⟩ := g
  exact congrArg (GeneralPurpose.mk bucketSize · occupied large) hclasses

theorem setBuckets_self (hc : g.classes.toList[c]? = some bs) : g.setBuckets c bs = g := by
  have hclasses : (g.setBuckets c bs).classes = g.classes := by
    obtain ⟨hlt, rfl⟩ := List.getElem?_eq_some_iff.1 hc
    rw [← Vector.toList_inj, classes_setBuckets, List.set_getElem_self]
  obtain ⟨bucketSize, classes, occupied, large⟩ := g
  exact congrArg (GeneralPurpose.mk bucketSize · occupied large) hclasses

/-- The mark that a new bucket makes is taken away with it, unless there are other ones. -/
theorem Sound.erase_insert (h : g.Sound) (hc : g.classes.toList[c]? = some bs)
    (hocc : (g.occupied.insert c).result = .ok occupied) :
    (if bs = [] then (occupied.erase c).result else .ok occupied) = .ok g.occupied := by
  by_cases hnil : bs = []
  · have hclear : g.occupied.test c = false := by
      refine Bool.eq_false_iff.2 fun hmark => ?_
      obtain ⟨bs', hc', hne⟩ := h.occupied.1 hmark
      obtain rfl : bs = bs' := Option.some.inj (hc.symm.trans hc')
      exact hne hnil
    obtain ⟨erased, herase⟩ : ∃ erased, (occupied.erase c).result = .ok erased :=
      BitSet.change_returns (Nat.lt_of_lt_of_le (class_lt hc) (by decide))
    rw [if_pos hnil, herase]
    refine congrArg _ (BitSet.ext_test fun j => ?_)
    rw [BitSet.test_erase herase, BitSet.test_insert hocc]
    by_cases hj : j = c
    · rw [hj, hclear]
      simp
    · simp [hj]
  · have hmark : g.occupied.test c = true := h.occupied.2 ⟨bs, hc, hnil⟩
    rw [if_neg hnil]
    refine congrArg _ (BitSet.ext_test fun j => ?_)
    rw [BitSet.test_insert hocc]
    by_cases hj : j = c
    · rw [hj, hmark]
      simp
    · simp [hj]

/-! ### Giving back -/

variable {holds : List Slice → β × Machine → Prop} {stocked : β → Prop}
  {restored : Nat → β → β → Prop} {counters : β → List Counters} {out : List Slice} {m : Machine}

/-- A slot that was just taken is found where it starts, and giving it back restores its bucket. -/
theorem Kept.owner_taken (hB : Supply B Slice.Meets holds) (h : Kept holds out s)
    (hs : s.1.1 = g.setBuckets c (bs.set i b')) (hc : g.classes.toList[c]? = some bs)
    (hi : bs[i]? = some b) (hb : b.Sound c) (htake : b.takeSlot = .ok (some (addr, b'))) :
    ∃ slot, s.1.1.classes.toList[c]? = some (bs.set i b') ∧ (bs.set i b')[i]? = some b' ∧
      s.1.1.owner addr = .ok (some (.slot c i slot)) ∧ b'.releaseSlot slot = .ok b := by
  obtain ⟨slot, _, rfl, hget, hrel⟩ := Bucket.releaseSlot_takeSlot hb htake
  have hrow : s.1.1.classes.toList[c]? = some (bs.set i b') := by
    rw [hs]
    exact row_setBuckets hc
  have hat : (bs.set i b')[i]? = some b' :=
    List.getElem?_set_self (List.getElem?_eq_some_iff.1 hi).1
  have hspan : s.1.1.Spans (.slot c i slot) (b'.place slot) :=
    ⟨bs.set i b', b', hrow, hat, hget, rfl⟩
  have howner := owner_of_spans h.sound (h.spread hB) (h.bounded hB) hspan
  rw [(Bucket.takeSlot_shape htake).place] at howner
  exact ⟨slot, hrow, hat, howner, hrel⟩

/-- A slot of a bucket that was in use goes back, and the bucket stays. -/
theorem undo_found (hB : Service B holds) (hkept : Kept (NonNull holds) out (t.1, m))
    (hshape : s.1.1.Shaped) (hc : s.1.1.classes.toList[c]? = some bs) (hi : bs[i]? = some b)
    (htake : b.takeSlot = .ok (some (addr, b')))
    (ht : t.1 = (s.1.1.setBuckets c (bs.set i b'), s.1.2)) (hn : block.isNull = false)
    (haddr : block.addr = addr) :
    ∃ u, free B block (t.1, m) = .ok ((), u) ∧ u.1 = s.1 := by
  have hsound := (hshape.sound.mem_bucket hc hi).1
  have htable : t.1.1 = s.1.1.setBuckets c (bs.set i b') := by rw [ht]
  obtain ⟨slot, hrow, hat, howner, hrel⟩ :=
    hkept.owner_taken hB.meets htable hc hi hsound htake
  rw [← haddr] at howner
  have hbusy : b.usedCount ≠ 0 := Nat.pos_iff_ne_zero.1 (hshape.busy ⟨bs, hc, hi⟩)
  refine ⟨_, free_slot_kept hn howner hrow hat hrel hbusy, ?_⟩
  have hback : (bs.set i b').set i b = bs := by
    obtain ⟨hlt, rfl⟩ := List.getElem?_eq_some_iff.1 hi
    rw [List.set_set, List.set_getElem_self]
  have hrestored : t.1.1.setBuckets c bs = s.1.1 := by
    rw [htable]
    exact setBuckets_setBuckets.trans (setBuckets_self hc)
  simp only [hback, hrestored]
  rw [ht]

/-- A slot of a bucket that was put up for it goes back together with its bucket. -/
theorem undo_created (hB : Service B holds) (h : Undoes B holds stocked restored counters)
    (hk : Kept (NonNull holds) out s) (hstocked : stocked s.1.2) {blocks : List Slice}
    (hkept : Kept (NonNull holds) blocks (t.1, m)) (hb : b.Sound c) (hzero : b.usedCount = 0)
    {u : β × Machine} (hc : s.1.1.classes.toList[c]? = some bs)
    (hcall : B.alloc n align (s.1.2, s.2) = .ok (.ok b.storage, u))
    (hocc : (s.1.1.occupied.insert c).result = .ok occupied)
    (htake : b.takeSlot = .ok (some (addr, b')))
    (ht : t.1 = (({ s.1.1.setBuckets c (bs ++ [b]) with occupied } : GeneralPurpose).setBuckets c
      ((bs ++ [b]).set bs.length b'), u.1))
    (hn : block.isNull = false) (haddr : block.addr = addr)
    (hw : WrittenIn [b.storage] u.2.memory m.memory) :
    ∃ v, free B block (t.1, m) = .ok ((), v) ∧ v.1.1 = s.1.1 ∧ restored 1 s.1.2 v.1.2 := by
  have htable : t.1.1 = ({ s.1.1.setBuckets c (bs ++ [b]) with occupied } :
      GeneralPurpose).setBuckets c ((bs ++ [b]).set bs.length b') := by rw [ht]
  have hcreated : ({ s.1.1.setBuckets c (bs ++ [b]) with occupied } :
      GeneralPurpose).classes.toList[c]? = some (bs ++ [b]) := row_setBuckets hc
  obtain ⟨slot, hrow, hat, howner, hrel⟩ := hkept.owner_taken hB.meets htable hcreated
    List.getElem?_concat_length hb htake
  rw [← haddr] at howner
  have hback : ((bs ++ [b]).set bs.length b').eraseIdx bs.length = bs := by
    rw [List.set_append_right _ _ (Nat.le_refl _), Nat.sub_self, List.set_cons_zero,
      List.eraseIdx_append_of_length_le (Nat.le_refl _), Nat.sub_self]
    exact List.append_nil bs
  have hmarks : (if ((bs ++ [b]).set bs.length b').eraseIdx bs.length = [] then
      (t.1.1.occupied.erase c).result else .ok t.1.1.occupied) = .ok s.1.1.occupied := by
    rw [hback, htable]
    exact hk.sound.erase_insert hc hocc
  have hfree := free_slot_emptied (B := B) (s := (t.1, m)) hn howner hrow hat hrel hzero hmarks
  have hstorage : b'.storage = b.storage := (Bucket.takeSlot_shape htake).storage
  have hbelow : t.1.2 = u.1 := by rw [ht]
  rw [hback, hstorage] at hfree
  obtain ⟨v, hreturned, hrest⟩ := h.undo (m := m.report [.smallFree c slot,
    .bucketReleased b'.objSize b.storage.addr]) hk.backed.1 hstocked hcall hw
  rw [← hbelow] at hreturned
  refine ⟨_, hfree.trans (congrArg (passing _) hreturned), ?_, hrest⟩
  change ({ t.1.1.setBuckets c bs with occupied := s.1.1.occupied } : GeneralPurpose) = s.1.1
  rw [htable, setBuckets_setBuckets, setBuckets_setBuckets]
  exact setBuckets_self hc

/-- A small block that is given back right away goes back to its bucket, and the bucket goes if it
was put up for it: in a table that has its shape only such a bucket can then be empty. -/
theorem undo_small (hB : Service B holds) (h : Undoes B holds stocked restored counters)
    (hk : Kept (NonNull holds) out s) (hshape : s.1.1.Shaped) (hstocked : stocked s.1.2)
    (hclass : s.1.1.sizeClass size align = .ok (some c))
    (hsmall : allocSmall B c size s = .ok (.ok block, t))
    (hkept : Kept (NonNull holds) (block :: out) (t.1, m)) (hn : block.isNull = false)
    (hw : WrittenIn [block] t.2.memory m.memory) :
    ∃ u, free B block (t.1, m) = .ok ((), u) ∧ u.1.1 = s.1.1 ∧ restored 1 s.1.2 u.1.2 := by
  cases allocSmall_slotted hsmall with
  | @taken index u bs b addr b' es hroom hbs hi htake =>
  have hroomed := hk.roomed hB.meets hroom
  cases hroom with
  | found hc _ =>
    obtain ⟨u, hfree, hback⟩ := undo_found hB hkept hshape hbs hi htake rfl hn rfl
    exact ⟨u, hfree, by rw [hback], by rw [hback]; exact h.refl⟩
  | @created bs₀ storage v es' occupied hc hcall hocc =>
    have hcreated : (s.1.1.setBuckets c (bs₀ ++ [Bucket.new storage (2 ^ c)
        (s.1.1.bucketSize / 2 ^ c)])).classes.toList[c]? = _ := row_setBuckets hc
    obtain rfl := Option.some.inj (hcreated.symm.trans hbs)
    obtain rfl := Option.some.inj (List.getElem?_concat_length.symm.trans hi)
    -- the block lies in the storage of the new bucket
    obtain ⟨slot, hlt, haddr, _⟩ := Bucket.releaseSlot_takeSlot (Bucket.sound_new _ _ _) htake
    have hroomy := hroomed.roomy _ (mem_buckets.2 ⟨c, _, _, hbs, hi⟩)
    have hin : Slice.Inside ⟨addr, size⟩ storage := by
      have hplace := hroomy.place_inside hlt
      have hsize := (sizeClass_eq_some hclass).1
      rw [haddr]
      simp only [Slice.Inside, Bucket.place, Bucket.new] at hplace ⊢
      omega
    have hwritten : WrittenIn [storage] v.2.memory m.memory := by
      refine hw.inside fun block hb => ⟨storage, List.mem_singleton_self _, ?_⟩
      rw [List.mem_singleton.1 hb]
      exact hin
    exact undo_created hB h hk hstocked hkept (Bucket.sound_new _ _ _) rfl hc hcall hocc htake rfl
      hn rfl hwritten

theorem undo_large (hB : Service B holds) (h : Undoes B holds stocked restored counters)
    (hk : Kept (NonNull holds) out s) (hstocked : stocked s.1.2)
    (hlarge : allocLarge B size align s = .ok (.ok block, t))
    (hkept : Kept (NonNull holds) (block :: out) (t.1, m)) (hn : block.isNull = false)
    (hw : WrittenIn [block] t.2.memory m.memory) :
    ∃ u, free B block (t.1, m) = .ok ((), u) ∧ u.1.1 = s.1.1 ∧ restored 1 s.1.2 u.1.2 := by
  obtain ⟨u, ⟨_, hbad, _⟩ | ⟨_, es, heq, hcall, rfl⟩⟩ := allocLarge_ok hlarge
  · cases hbad
  cases heq
  have hlast : (s.1.1.large ++ [block])[s.1.1.large.length]? = some block :=
    List.getElem?_concat_length
  have howner := owner_of_spans hkept.sound (hkept.spread hB.meets) (hkept.bounded hB.meets)
    (show Spans _ (.large s.1.1.large.length) block from hlast)
  have hfree := free_large (B := B) hn howner hlast
  rw [swapRemove_concat] at hfree
  obtain ⟨v, hreturned, hrest⟩ := h.undo (m := m.report [.largeFree block.addr block.len])
    hk.backed.1 hstocked hcall hw
  exact ⟨_, hfree.trans (congrArg (passing _) hreturned), rfl, hrest⟩

/-- A block that is given back right away leaves the table as it was. -/
theorem undo (hB : Service B holds) (h : Undoes B holds stocked restored counters)
    (hk : Kept (NonNull holds) out s) (hshape : s.1.1.Shaped) (hstocked : stocked s.1.2)
    (ha : GeneralPurpose.alloc B size align s = .ok (.ok block, t))
    (hw : WrittenIn [block] t.2.memory m.memory) :
    ∃ u, free B block (t.1, m) = .ok ((), u) ∧ u.1.1 = s.1.1 ∧ restored 1 s.1.2 u.1.2 := by
  have hlend := lending hB.toContract
  have hmade : Kept (NonNull holds) (block :: out) t := (hlend.alloc hk ha).2.1
  have hn : block.isNull = false :=
    Slice.isNull_eq_false.2 (hlend.nonnull hmade block List.mem_cons_self)
  have hkept := hmade.write hB.meets (hw.mem List.mem_cons_self)
  rcases alloc_ok ha with ⟨_, hbad, _⟩ | ⟨_, _, ⟨c, hclass, hsmall⟩ | hlarge⟩
  · cases hbad
  · exact undo_small hB h hk hshape hstocked hclass hsmall hkept hn hw
  · exact undo_large hB h hk hstocked hlarge hkept hn hw

/-! ### Asking again -/

theorem bucketWithRoom_found (hbs : s.1.1.bucketsOf c = .ok bs)
    (hfind : bs.findIdx? (!·.isFull) = some i) : bucketWithRoom B c s = .ok (.ok i, s) := by
  obtain ⟨⟨g, b⟩, m⟩ := s
  simp only at hbs
  simp [bucketWithRoom, hbs, hfind, Except.bind, Except.map]

theorem bucketWithRoom_created {storage : Slice} {u : β × Machine}
    (hbs : s.1.1.bucketsOf c = .ok bs) (hfind : bs.findIdx? (!·.isFull) = none)
    (hmul : Word.mul (s.1.1.bucketSize / 2 ^ c) (2 ^ c) = .ok n)
    (hcall : B.alloc n (2 ^ c) (s.1.2, s.2) = .ok (.ok storage, u))
    (hocc : (s.1.1.occupied.insert c).result = .ok occupied) :
    bucketWithRoom B c s = .ok (.ok bs.length, (({ s.1.1.setBuckets c
      (bs ++ [.new storage (2 ^ c) (s.1.1.bucketSize / 2 ^ c)]) with occupied }, u.1),
      u.2.report [.bucketCreated (2 ^ c) (s.1.1.bucketSize / 2 ^ c) storage.addr])) := by
  obtain ⟨⟨g, b⟩, m⟩ := s
  simp only at hbs hmul hcall hocc
  simp [bucketWithRoom, hbs, hfind, hmul, hcall, hocc, Except.bind, Except.map,
    Machine.report]

theorem bucketWithRoom_again (h : Undoes B holds stocked restored counters)
    (hg : s'.1.1 = s.1.1) (hr : restored n s.1.2 s'.1.2)
    (hroom : ∀ c ∈ counters s.1.2, c.allocs + n + 1 < wordLimit)
    (hb : bucketWithRoom B c s = .ok (.ok i, t)) :
    ∃ t', bucketWithRoom B c s' = .ok (.ok i, t') ∧ t'.1.1 = t.1.1 := by
  simp only [bucketWithRoom, Act.bind_ok, Act.own_ok, Act.lift_ok] at hb
  obtain ⟨_, _, ⟨rfl, rfl⟩, bs, _, ⟨hbs, rfl⟩, hb⟩ := hb
  cases hfind : bs.findIdx? (!·.isFull) with
  | some index =>
    simp only [hfind, Act.pure_ok, Except.ok.injEq] at hb
    obtain ⟨rfl, rfl⟩ := hb
    rw [← hg] at hbs
    exact ⟨s', bucketWithRoom_found hbs hfind, hg⟩
  | none =>
    simp only [hfind, Act.bind_ok, Act.lift_ok, Act.below_ok] at hb
    obtain ⟨storageSize, _, ⟨hmul, rfl⟩, answer, _, ⟨u, hcall, rfl⟩, hb⟩ := hb
    cases answer with
    | error e =>
      obtain ⟨hbad, _⟩ := Act.pure_ok.1 hb
      cases hbad
    | ok storage =>
      simp only [Act.bind_ok, Act.emit_ok, Act.lift_ok, Act.setOwn_ok, Act.pure_ok,
        Except.ok.injEq] at hb
      obtain ⟨_, _, rfl, occupied, _, ⟨hocc, rfl⟩, _, _, rfl, rfl, rfl⟩ := hb
      obtain ⟨u', hcall'⟩ := h.again_below hcall hr hroom
      rw [← hg] at hbs hmul hocc
      refine ⟨_, bucketWithRoom_created hbs hfind hmul hcall' hocc, ?_⟩
      simp only [hg]

theorem allocSmall_met {u : (GeneralPurpose × β) × Machine}
    (hroom : bucketWithRoom B c s = .ok (.ok i, u)) (hbs : u.1.1.bucketsOf c = .ok bs)
    (hb : elementAt bs i = .ok b) (htake : b.takeSlot = .ok (some (addr, b'))) :
    allocSmall B c size s = .ok (.ok ⟨addr, size⟩,
      ((u.1.1.setBuckets c (bs.set i b'), u.1.2), u.2.report [.smallAlloc size c addr])) := by
  obtain ⟨⟨g, b₀⟩, m⟩ := u
  simp only at hbs
  simp [allocSmall, hroom, hbs, hb, htake, Except.bind, Except.map, Machine.report]

theorem allocLarge_met {u : β × Machine}
    (hcall : B.alloc size align (s.1.2, s.2) = .ok (.ok block, u)) :
    ∃ t, allocLarge B size align s = .ok (.ok block, t) := by
  obtain ⟨⟨g, b⟩, m⟩ := s
  simp only at hcall
  simp [allocLarge, hcall, Except.bind, Except.map]

/-- A table that is the same answers a request again. -/
theorem again (h : Undoes B holds stocked restored counters)
    (ha : GeneralPurpose.alloc B size align s = .ok (.ok block, t)) (hg : s'.1.1 = s.1.1)
    (hr : restored n s.1.2 s'.1.2)
    (hroom : ∀ c ∈ counters s.1.2, c.allocs + n + 1 < wordLimit) :
    ∃ t', GeneralPurpose.alloc B size align s' = .ok (.ok block, t') := by
  obtain ⟨_, hserve, hserved⟩ := allocBy_served ha
  obtain ⟨found, hclass⟩ := s.1.1.sizeClass_returns size (normalizeAlign align)
  have hclass' : s'.1.1.sizeClass size (normalizeAlign align) = .ok found := by rwa [hg]
  rw [serve_eq hclass] at hserve
  have hserve' := (hserved s').trans (serve_eq hclass')
  cases found with
  | none =>
    obtain ⟨u, ⟨_, hbad, _⟩ | ⟨_, _, heq, hcall, _⟩⟩ := allocLarge_ok hserve
    · cases hbad
    cases heq
    obtain ⟨u', hcall'⟩ := h.again_below hcall hr hroom
    obtain ⟨t', hmet⟩ := allocLarge_met hcall'
    exact ⟨t', hserve'.trans hmet⟩
  | some c =>
    simp only [allocSmall] at hserve
    obtain ⟨found, u, hfound, hserve⟩ := Act.bind_ok.1 hserve
    cases found with
    | error e =>
      obtain ⟨hbad, _⟩ := Act.pure_ok.1 hserve
      cases hbad
    | ok i =>
      simp only [Act.bind_ok, Act.own_ok, Act.lift_ok] at hserve
      obtain ⟨_, _, ⟨rfl, rfl⟩, bs, _, ⟨hbs, rfl⟩, b, _, ⟨hb, rfl⟩, taken, _, ⟨htake, rfl⟩,
        hserve⟩ := hserve
      cases taken with
      | none =>
        obtain ⟨hbad, _⟩ := Act.pure_ok.1 hserve
        cases hbad
      | some taken =>
        obtain ⟨addr, b'⟩ := taken
        simp only [Act.bind_ok, Act.setOwn_ok, Act.emit_ok, Act.pure_ok, Except.ok.injEq] at hserve
        obtain ⟨_, _, _, _, _, _, rfl, _⟩ := hserve
        obtain ⟨u', hfound', hu⟩ := bucketWithRoom_again h hg hr hroom hfound
        rw [← hu] at hbs
        obtain ⟨t', hmet⟩ : ∃ t', allocSmall B c size s' = .ok (.ok ⟨addr, size⟩, t') :=
          ⟨_, allocSmall_met hfound' hbs hb htake⟩
        exact ⟨t', hserve'.trans hmet⟩

end GeneralPurpose
end AllocChain
