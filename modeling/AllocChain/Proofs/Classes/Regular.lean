import AllocChain.Proofs.Classes.Edge
import AllocChain.Scripted

/-!
How a general-purpose allocator breaks off. In a table that has its shape all numbers that the
operations compute are words and all positions that they look at exist, so they break off only
where the allocator behind does, or because a block is moved under a length that it does not have
(`Regular`). A bucket that was found or made for a request always
has a slot to take. The heap that can be told to misbehave is one that it may stand on
(`ScriptedHeap.unwrapped`).
-/

namespace AllocChain

variable {β : Type}

namespace GeneralPurpose

variable {B : Allocator β} {ok : β → Prop} {s : (GeneralPurpose × β) × Machine} {mem : Slice}
  {c i n size align : Nat}

theorem Standing.bounded (h : Standing ok n s) : ∀ b ∈ s.1.1.buckets, b.storage.Bounded :=
  fun _ hb => h.backed.2 _ (List.mem_append_left _ (List.mem_map_of_mem hb))

theorem breaks_resize {u : β × Machine} (hok : ok u.1) :
    (B.resize mem size align).BreaksOnly (B.Breaks ok) u :=
  fun _ h => ⟨u, hok, .inr (.inl ⟨mem, size, align, h⟩)⟩

theorem breaks_free {u : β × Machine} (hok : ok u.1) :
    (B.free mem).BreaksOnly (B.Breaks ok) u :=
  fun _ h => ⟨u, hok, .inr (.inr ⟨mem, h⟩)⟩

theorem Standing.alloc_breaksOnly (h : Standing ok n s) :
    (GeneralPurpose.alloc B size align).BreaksOnly (B.Breaks ok) s := by
  have hcall : ∀ size align, (B.alloc size align).BreaksJust
      (fun brk => B.alloc size align (s.1.2, s.2) = .error brk) (s.1.2, s.2) := fun _ _ _ => .rfl
  refine (alloc_breaksJust h.shaped hcall).only.imp ?_
  rintro brk ⟨_, hbrk⟩
  cases hbrk with
  | bucket _ _ _ hbelow => exact ⟨_, h.backed.1, .inl ⟨_, _, hbelow⟩⟩
  | large _ hbelow => exact ⟨_, h.backed.1, .inl ⟨_, _, hbelow⟩⟩

theorem Standing.releaseSlot_breaksOnly (h : Standing ok n s) {k : Nat} {span : Slice}
    (hspan : s.1.1.Spans (.slot c i k) span) :
    (releaseSlot B c i k).BreaksOnly (B.Breaks ok) s := by
  obtain ⟨bs, b, hc, hi, hk, _⟩ := hspan
  have hsound := (h.shaped.bucket ⟨bs, hc, hi⟩).toSound
  obtain ⟨b', hrel, _⟩ := Bucket.releaseSlot_returns hsound hk
  simp only [releaseSlot]
  refine .own_bind (.lift_bind (bucketsOf_ok.2 hc) (.lift_bind (elementAt_ok.2 hi)
    (.lift_bind hrel (.emit_bind ?_))))
  by_cases hzero : b'.usedCount = 0
  · rw [if_pos hzero]
    by_cases hlast : bs.eraseIdx i = []
    · rw [if_pos hlast]
      obtain ⟨occupied, hocc⟩ := erase_returns hc
      exact .lift_bind hocc (.setOwn_bind (.emit_bind (.below (breaks_free h.backed.1))))
    · rw [if_neg hlast]
      exact .pure_bind (.setOwn_bind (.emit_bind (.below (breaks_free h.backed.1))))
  · rw [if_neg hzero]
    exact .setOwn _ _

theorem Standing.free_breaksOnly (h : Standing ok n s) :
    (GeneralPurpose.free B mem).BreaksOnly (B.Breaks ok) s := by
  simp only [GeneralPurpose.free]
  cases hn : mem.isNull with
  | true => exact .pure _ _
  | false =>
    obtain ⟨found, howner⟩ := owner_returns h.shaped.sound h.bounded mem.addr
    refine .own_bind (.lift_bind howner ?_)
    rcases found with _ | ⟨c, i, k⟩ | i
    · exact .emit _ _
    · obtain ⟨span, hspan, _⟩ := owner_spans h.shaped.sound howner
      exact h.releaseSlot_breaksOnly hspan
    · obtain ⟨entry, hi, _⟩ := owner_large howner
      simp only [releaseLarge]
      exact .own_bind (.lift_bind (elementAt_ok.2 hi) (.setOwn_bind (.emit_bind
        (.below (breaks_free h.backed.1)))))

theorem Standing.adjust_breaksOnly (hB : Unwrapped B ok) (h : Standing ok n s)
    (hproper : Proper mem size align) : (adjust B mem size (normalizeAlign align)).BreaksOnly
      (fun brk => B.Breaks ok brk ∨ Overlaps B mem size align s brk) s := by
  obtain ⟨found, howner⟩ := owner_returns h.shaped.sound h.bounded mem.addr
  simp only [adjust]
  refine .own_bind (.lift_bind howner ?_)
  rcases found with _ | ⟨c, i, k⟩ | i
  · exact .pure _ _
  · obtain ⟨class', hclass⟩ := s.1.1.sizeClass_returns size (normalizeAlign align)
    refine .lift_bind hclass ?_
    by_cases hsame : class' = some c
    · simp only [if_pos hsame]
      exact .emit_bind (.pure _ _)
    · simp only [if_neg hsame]
      refine (standing_steady hB n).relocate_breaksOnly h (fun hi => hi.alloc_breaksOnly.imp .inl)
        (fun hi => hi.free_breaksOnly.imp .inl) ?_
      intro fresh t ha hover
      have hother : s.1.1.sizeClass size (normalizeAlign align) ≠ .ok (some c) := fun heq =>
        hsame (Except.ok.inj (hclass.symm.trans heq))
      exact .inr ⟨hproper, ⟨c, i, k, howner, hother⟩, fresh, t, ha, hover, rfl⟩
  · obtain ⟨entry, hi, _⟩ := owner_large howner
    simp only [resizeLarge]
    refine .own_bind (.lift_bind (elementAt_ok.2 hi)
      (.below_bind ((breaks_resize h.backed.1).imp .inl) ?_))
    intro answer u _
    cases answer with
    | error e => exact .pure _ _
    | ok resized => exact .setOwn_bind (.emit_bind (.pure _ _))

theorem freeAll_breaksOnly (hB : Unwrapped B ok) {blocks : List Slice} {u : β × Machine}
    (hok : ok u.1) : (B.freeAll blocks).BreaksOnly (B.Breaks ok) u := by
  induction blocks generalizing u with
  | nil => exact .pure _ _
  | cons block blocks ih =>
    refine .bind (breaks_free hok) ?_
    intro _ v hfree
    exact ih (hB.free hok hfree)

theorem Standing.destroy_breaksOnly (hB : Unwrapped B ok) (h : Standing ok n s) :
    (GeneralPurpose.destroy B).BreaksOnly (B.Breaks ok) s := by
  simp only [GeneralPurpose.destroy]
  refine .own_bind (.setOwn_bind (.below_bind (freeAll_breaksOnly hB h.backed.1) ?_))
  intro _ u hu
  have hrest := hB.ledger.freeAll hu h.backed
  refine .below_bind (freeAll_breaksOnly hB hrest.1) ?_
  intro _ v _
  split
  · exact .emit _ _
  · exact .pure _ _

end GeneralPurpose

/-! ### Regular tables -/

/-- What the record of a bucket of class `c` says: the size of its objects, how many there are, and
how many of them are in use, which the bits say too. -/
structure Bucket.Regular (bucketSize c : Nat) (b : Bucket) : Prop where
  objSize : b.objSize = 2 ^ c
  length : b.slots.length = bucketSize / 2 ^ c
  nonempty : 1 ≤ b.slots.length
  words : b.slots.words.length = (b.slots.length + (wordBits - 1)) / wordBits
  count : b.usedCount = b.slots.count
  taken : b.usedCount = b.slots.taken.length
  busy : 1 ≤ b.usedCount
  bounded : b.usedCount ≤ b.slots.length

/-- The table is regular, a bucket that is found or made for a request has a slot to take, and
whatever is asked next breaks off only where the allocator behind does, a resize also if it moves a
small block and the slice is so long that the copy overlaps. -/
structure GeneralPurpose.Regular (B : Allocator β) (ok : β → Prop) (n : Nat)
    (s : (GeneralPurpose × β) × Machine) : Prop where
  setting : s.1.1.bucketSize = (GeneralPurpose.new n).bucketSize
  bucket : ∀ c (bs : List Bucket), s.1.1.classes.toList[c]? = some bs →
    ∀ b ∈ bs, b.Regular s.1.1.bucketSize c
  small : ∀ c bs, s.1.1.classes.toList[c]? = some bs → s.1.1.bucketSize < 2 ^ c → bs = []
  occupied : ∀ c, s.1.1.occupied.test c = true ↔
    ∃ bs, s.1.1.classes.toList[c]? = some bs ∧ bs ≠ []
  room : ∀ size align c index u, s.1.1.sizeClass size align = .ok (some c) →
    bucketWithRoom B c s = .ok (.ok index, u) →
    ∃ bs b addr b', u.1.1.classes.toList[c]? = some bs ∧ bs[index]? = some b ∧
      b.takeSlot = .ok (some (addr, b'))
  deeds : ∀ d, ((allocator B).perform d).BreaksOnly (fun brk => B.Breaks ok brk ∨
    ∃ mem size align, d = .resize mem size align ∧ Overlaps B mem size align s brk) s
  destroyed : (destroy B).BreaksOnly (B.Breaks ok) s

open GeneralPurpose in
theorem GeneralPurpose.Standing.regular {B : Allocator β} {ok : β → Prop} {n : Nat}
    {s : (GeneralPurpose × β) × Machine} (hB : Unwrapped B ok) (h : Standing ok n s) :
    GeneralPurpose.Regular B ok n s := by
  have hpos : ∀ {c bs b}, s.1.1.classes.toList[c]? = some bs → b ∈ bs → ∃ i, s.1.1.At c i b := by
    intro c bs b hc hb
    obtain ⟨i, hi⟩ := List.mem_iff_getElem?.1 hb
    exact ⟨i, bs, hc, hi⟩
  refine ⟨h.setting, ?_, ?_, fun c => h.shaped.sound.occupied, ?_, ?_, h.destroy_breaksOnly hB⟩
  · intro c bs hc b hb
    obtain ⟨i, hat⟩ := hpos hc hb
    have hformed := h.shaped.bucket hat
    have hbusy := h.shaped.busy hat
    exact {
      objSize := hformed.objSize
      length := hformed.length
      nonempty := Nat.le_trans hbusy hformed.usedCount_le
      words := hformed.packed.words_length
      count := by rw [hformed.packed.count_eq, hformed.usedCount]
      taken := hformed.usedCount
      busy := hbusy
      bounded := hformed.usedCount_le }
  · intro c bs hc hlt
    refine List.eq_nil_iff_forall_not_mem.2 ?_
    intro b hb
    obtain ⟨i, hat⟩ := hpos hc hb
    exact absurd (h.shaped.bucket hat).fits (Nat.not_le.2 hlt)
  · intro size align c index u hclass hroom
    rcases h.shaped.roomed (sizeClass_le hclass).2 (bucketWithRoom_ok hroom) with
      ⟨_, hbad, _⟩ | ⟨i, heq, hready⟩
    · cases hbad
    · cases heq
      obtain ⟨b, ⟨bs, hc, hi⟩, _⟩ := hready.room
      obtain ⟨addr, b', htake⟩ := hready.takeSlot ⟨bs, hc, hi⟩
      exact ⟨bs, b, addr, b', hc, hi, htake⟩
  · intro d
    refine (standing_steady hB n).perform_breaksOnly d
      (fun _ _ => h.alloc_breaksOnly.imp .inl) (fun _ => h.free_breaksOnly.imp .inl) ?_
    intro mem size align hd hn hs hpow
    exact (h.adjust_breaksOnly hB ⟨hn, hs, hpow⟩).imp fun hbrk =>
      hbrk.imp_right fun hover => ⟨mem, size, align, hd, hover⟩

/-- Whatever a client does with a general-purpose allocator, overwriting bytes and destroying the
allocator on the way included, and however bad the blocks of the allocator behind are, unless they
wrap round: the table stays regular. -/
theorem regular_of_unruly {B : Allocator β} {ok : β → Prop} {bucketSize : Nat} {b : β}
    {m : Machine} {live : List (Lease (GeneralPurpose × β))}
    {s : (GeneralPurpose × β) × Machine} (hB : Unwrapped B ok) (hstart : ok b)
    (hrun : Run (GeneralPurpose.allocator B) [GeneralPurpose.destroy B] Unruly
      ((GeneralPurpose.new bucketSize, b), m) live s) :
    GeneralPurpose.Regular B ok bucketSize s := by
  have hstanding : GeneralPurpose.Standing ok bucketSize s := by
    refine (GeneralPurpose.standing_steady hB bucketSize).run ?_
      (GeneralPurpose.standing_new hstart) hrun
    intro x hx u t hu hd
    rw [List.mem_singleton.1 hx] at hd
    exact hu.destroy hB hd
  exact hstanding.regular hB

/-! ### Standing on a heap that misbehaves -/

namespace ScriptedHeap

variable {s t : ScriptedHeap × Machine} {mem block : Slice} {size align : Nat} {r : Answer}

/-- A block that is carved ends within the heap, and the heap stays where it is. -/
theorem carve_spec (h : ScriptedHeap) (size align : Nat) :
    (h.carve size align).2.base = h.base ∧ (h.carve size align).2.limit = h.limit ∧
      ∀ block, (h.carve size align).1 = .ok block → block.addr + block.len ≤ h.base + h.limit := by
  simp only [carve]
  split
  · exact ⟨rfl, rfl, fun _ hbad => by cases hbad⟩
  · split
    · exact ⟨rfl, rfl, fun _ hbad => by cases hbad⟩
    · rename_i hfits
      refine ⟨rfl, rfl, fun block heq => ?_⟩
      cases heq
      cases h.short <;> simp only <;> omega

theorem cut_ok (h : cut size align s = .ok (r, t)) :
    t.1.base = s.1.base ∧ t.1.limit = s.1.limit ∧
      ∀ block, r = .ok block → block.addr + block.len ≤ s.1.base + s.1.limit := by
  have hcut : cut size align s =
      .ok ((s.1.carve size align).1, (s.1.carve size align).2, s.2) := rfl
  rw [hcut, Except.ok.injEq, Prod.mk.injEq] at h
  obtain ⟨rfl, rfl⟩ := h
  exact carve_spec s.1 size align

theorem log_ok {call : Call} {a : Unit} (h : log call s = .ok (a, t)) : t.1 = s.1 := by
  cases h
  rfl

theorem alloc_ok (ha : alloc size align s = .ok (r, t)) :
    t.1.base = s.1.base ∧ t.1.limit = s.1.limit ∧
      ∀ block, r = .ok block → block.addr + block.len ≤ s.1.base + s.1.limit := by
  simp only [alloc] at ha
  obtain ⟨answer, u, hcut, ha⟩ := Act.bind_ok.1 ha
  obtain ⟨_, v, hlog, ha⟩ := Act.bind_ok.1 ha
  have hspec := cut_ok hcut
  rw [← log_ok hlog] at hspec
  split at ha
  · obtain ⟨_, w, hcount, hret⟩ := Act.bind_ok.1 ha
    cases hcount
    obtain ⟨rfl, rfl⟩ := Act.pure_ok.1 hret
    exact hspec
  · obtain ⟨rfl, rfl⟩ := Act.pure_ok.1 ha
    exact hspec

theorem free_ok (hf : free mem s = .ok ((), t)) :
    t.1.base = s.1.base ∧ t.1.limit = s.1.limit := by
  cases hf
  exact ⟨rfl, rfl⟩

theorem resize_ok (hr : resize mem size align s = .ok (r, t)) :
    t.1.base = s.1.base ∧ t.1.limit = s.1.limit ∧
      ∀ block, r = .ok block → block.addr + block.len ≤ s.1.base + s.1.limit ∨
        block.addr + block.len ≤ mem.addr + mem.len := by
  simp only [resize] at hr
  split at hr
  · obtain ⟨hbase, hlimit, hfits⟩ := alloc_ok hr
    exact ⟨hbase, hlimit, fun block heq => .inl (hfits block heq)⟩
  split at hr
  · obtain ⟨_, u, hf, hret⟩ := Act.bind_ok.1 hr
    obtain ⟨rfl, rfl⟩ := Act.pure_ok.1 hret
    obtain ⟨hbase, hlimit⟩ := free_ok hf
    refine ⟨hbase, hlimit, fun block heq => .inl ?_⟩
    cases heq
    exact Nat.zero_le _
  split at hr
  · rename_i hkeeps
    obtain ⟨_, u, hlog, hret⟩ := Act.bind_ok.1 hr
    obtain ⟨rfl, rfl⟩ := Act.pure_ok.1 hret
    rw [log_ok hlog]
    refine ⟨rfl, rfl, fun block heq => .inr ?_⟩
    cases heq
    exact Nat.add_le_add_left hkeeps.1 _
  · obtain ⟨answer, u, hcut, hr⟩ := Act.bind_ok.1 hr
    obtain ⟨_, v, hlog, hr⟩ := Act.bind_ok.1 hr
    obtain ⟨hbase, hlimit, hfits⟩ := cut_ok hcut
    rw [← log_ok hlog] at hbase hlimit
    cases answer with
    | error e =>
      obtain ⟨rfl, rfl⟩ := Act.pure_ok.1 hr
      exact ⟨hbase, hlimit, fun block heq => .inl (hfits block heq)⟩
    | ok fresh =>
      simp only [Act.bind_ok, Act.changeMemory_ok, Act.pure_ok] at hr
      obtain ⟨_, _, rfl, rfl, rfl⟩ := hr
      exact ⟨hbase, hlimit, fun block heq => .inl (hfits block heq)⟩

/-- The scripted heap hands out no block that wraps round, if its memory does not. -/
theorem unwrapped :
    Unwrapped ScriptedHeap.allocator fun h => h.base + h.limit < wordLimit where
  alloc := by
    intro s size align r t hok ha
    obtain ⟨hbase, hlimit, hfits⟩ := alloc_ok ha
    rw [hbase, hlimit]
    exact ⟨hok, fun block heq => Nat.lt_of_le_of_lt (hfits block heq) hok⟩
  resize := by
    intro s old size align r t hok hold hr
    obtain ⟨hbase, hlimit, hfits⟩ := resize_ok hr
    rw [hbase, hlimit]
    refine ⟨hok, fun block heq => ?_⟩
    rcases hfits block heq with hheap | hkept
    · exact Nat.lt_of_le_of_lt hheap hok
    · exact Nat.lt_of_le_of_lt hkept hold
  free := by
    intro s block t hok hf
    obtain ⟨hbase, hlimit⟩ := free_ok hf
    rw [hbase, hlimit]
    exact hok

end ScriptedHeap

/-- A client over a heap that hands out three bytes for every request, one byte behind where they
should be, and refuses the third request: it overwrites, and frees and resizes what it never got. -/
theorem regular_of_short_blocks :
    ∃ live s, Run (GeneralPurpose.allocator ScriptedHeap.allocator)
        [GeneralPurpose.destroy ScriptedHeap.allocator] Unruly
        ((GeneralPurpose.new 64, ⟨0, 4096, 1024, [2], some 3, 0, 1, 0, 0, 0, 0⟩), ⟨.zero, [], []⟩)
        live s ∧
      live.map (·.block) = [⟨4177, 3⟩, ⟨4129, 10⟩, ⟨4113, 12⟩] ∧
      s.1.1.held = [⟨4097, 3⟩, ⟨4177, 3⟩] ∧
      GeneralPurpose.Regular ScriptedHeap.allocator (fun h => h.base + h.limit < wordLimit) 64
        s := by
  have hlast : ((GeneralPurpose.allocator ScriptedHeap.allocator).play Unruly
      [.alloc 10 8, .alloc 12 16, .alloc 10 8, .alloc 100 16, .alloc 20 4, .write 4097 7,
        .free ⟨4097, 5⟩, .free ⟨4098, 5⟩, .resize ⟨4113, 9⟩ 40 8, .free ⟨9, 9⟩] []
      ((GeneralPurpose.new 64, ⟨0, 4096, 1024, [2], some 3, 0, 1, 0, 0, 0, 0⟩),
        ⟨.zero, [], []⟩)).map (fun r => (r.1.map (·.block), r.2.1.1.held)) =
        some ([⟨4177, 3⟩, ⟨4129, 10⟩, ⟨4113, 12⟩], [⟨4097, 3⟩, ⟨4177, 3⟩]) := by
    decide +kernel
  obtain ⟨⟨live, s⟩, hplay, hends⟩ := Option.map_eq_some_iff.1 hlast
  obtain ⟨hlive, hheld⟩ := Prod.mk.inj hends
  have hrun : Run (GeneralPurpose.allocator ScriptedHeap.allocator)
      [GeneralPurpose.destroy ScriptedHeap.allocator] Unruly _ live s := Run.start.play hplay
  exact ⟨live, s, hrun, hlive, hheld,
    regular_of_unruly ScriptedHeap.unwrapped (by decide) hrun⟩

end AllocChain
