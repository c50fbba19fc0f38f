import AllocChain.Proofs.Platform.Steps

/-!
The page allocator maps and unmaps exactly. The blocks that are out tile what is mapped: every
operation keeps a ledger of them (`Pages.ledger`), so after every run of a disciplined client the
pages of its blocks are mapped and nothing else. Main statement: `mapsExactly_of_disciplined`.
-/

namespace AllocChain

open Mapper

namespace Pages

variable {β : Type} {M : Mapper β} {k j size align : Nat} {holds : Set Nat → β × Machine → Prop}
  {others : Set Nat} {out : List Slice} {block : Slice} {s t : (List Mapper.Call × β) × Machine}

theorem mapped_unserved (hu : Unserved M.traced s t) :
    mapped others t.1.1 = mapped others s.1.1 := by
  obtain rfl | ⟨len, hmap⟩ := hu
  · rfl
  · exact mapped_refused hmap

/-- The mapper knows what is mapped, only what was mapped has been unmapped, and the blocks tile
what is mapped. -/
structure Tiled (pageSize : Nat) (holds : Set Nat → β × Machine → Prop) (others : Set Nat)
    (out : List Slice) (s : (List Mapper.Call × β) × Machine) : Prop where
  book : Book pageSize holds others s
  tiles : Tiles pageSize others out (mapped others s.1.1)

namespace Tiled

theorem machine (hM : M.Keeps (2 ^ k) holds) {c : List Mapper.Call × β} {m m' : Machine}
    (h : Tiled (2 ^ k) holds others out (c, m)) : Tiled (2 ^ k) holds others out (c, m') :=
  ⟨h.book.machine hM, h.tiles⟩

theorem addrs_nodup (h : Tiled (2 ^ k) holds others out s) : (out.map (·.addr)).Nodup := by
  refine List.pairwise_map.2 (h.tiles.apart.imp_of_mem fun {b b'} hb hb' hd heq => ?_)
  have hhas : ∀ {b}, b ∈ out → (span (2 ^ k) b).Has b.addr := fun hmem =>
    Slice.has_addr (Nat.lt_of_lt_of_le (h.tiles.placed _ hmem).nonempty
      (wholePages_bounds (Nat.two_pow_pos k) _).1)
  exact hd b.addr (hhas hb) (heq ▸ hhas hb')

theorem unserved (hM : M.Keeps (2 ^ k) holds) (h : Tiled (2 ^ k) holds others out s)
    (hu : Unserved M.traced s t) : Tiled (2 ^ k) holds others out t := by
  refine ⟨?_, mapped_unserved hu ▸ h.tiles⟩
  obtain rfl | ⟨len, hmap⟩ := hu
  · exact h.book
  · exact h.book.refused hM hmap

/-- The window of a larger mapping is all that stays mapped of it. -/
theorem trimmed {total start aligned len : Nat} {u v : (List Mapper.Call × β) × Machine}
    (hM : M.Keeps (2 ^ k) holds) (hb : Book (2 ^ k) holds others s) (htotal : 2 ^ k ∣ total)
    (hlen : 2 ^ k ∣ len) (haligned : 2 ^ k ∣ aligned)
    (hmap : M.traced.map total s = .ok (some start, t)) (hge : start ≤ aligned)
    (hend : aligned + len ≤ start + total)
    (hfront : M.traced.trim start (aligned - start) t = .ok ((), u))
    (hback : M.traced.trim (aligned + len) (start + total - (aligned + len)) u = .ok ((), v)) :
    Book (2 ^ k) holds others v ∧
      mapped others v.1.1 = mapped others s.1.1 ∪ (Slice.mk aligned len).addresses ∧
      start ≠ 0 ∧ start + total < wordLimit ∧
      ∀ a ∈ mapped others s.1.1, ¬ (Slice.mk start total).Has a := by
  obtain ⟨hbook, hmore, hne, hstart, hbound, hnew⟩ := hb.granted hM htotal hmap
  have hfrontIn : (Slice.mk start (aligned - start)).addresses ⊆ mapped others t.1.1 := by
    rw [hmore]
    refine fun a ha => .inr ?_
    simp only [Slice.mem_addresses] at ha ⊢
    omega
  obtain ⟨hbook, hless⟩ := hbook.trim hM ⟨hstart, Nat.dvd_sub haligned hstart, hfrontIn⟩ hfront
  have hbackIn : (Slice.mk (aligned + len) (start + total - (aligned + len))).addresses ⊆
      mapped others u.1.1 := by
    rw [hless, hmore]
    refine fun a ha => ⟨.inr ?_, fun hin => ?_⟩
    · simp only [Slice.mem_addresses] at ha ⊢
      omega
    · simp only [Slice.mem_addresses] at ha hin
      omega
  have hdvd : 2 ^ k ∣ aligned + len := Nat.dvd_add haligned hlen
  obtain ⟨hbook, hleast⟩ := hbook.trim hM
    ⟨hdvd, Nat.dvd_sub (Nat.dvd_add hstart htotal) hdvd, hbackIn⟩ hback
  exact ⟨hbook, by rw [hleast, hless, hmore, unmap_around hnew hge hend], hne, hbound, hnew⟩

/-- A block whose pages were not mapped before, and are now. -/
theorem put {addr : Nat} (hM : M.Keeps (2 ^ k) holds) (h : Tiled (2 ^ k) holds others out s)
    (hb : Book (2 ^ k) holds others t) (hp : Placed (2 ^ k) ⟨addr, size⟩)
    (hnew : ∀ a ∈ mapped others s.1.1, ¬ (Slice.mk addr (wholePages (2 ^ k) size)).Has a)
    (hmore : mapped others t.1.1 =
      mapped others s.1.1 ∪ (Slice.mk addr (wholePages (2 ^ k) size)).addresses) (m : Machine) :
    Tiled (2 ^ k) holds others (⟨addr, size⟩ :: out) (t.1, m) := by
  have htiles := h.tiles.push hp hnew
  exact ⟨hb.machine hM, hmore ▸ htiles⟩

/-- A request that is answered gets pages of its own, aligned as asked. -/
theorem served (hM : M.Keeps (2 ^ k) holds) (h : Tiled (2 ^ k) holds others out s) (hs : 0 < size)
    (hserved : Served M.traced (2 ^ k) size (2 ^ j) s (.ok block) t) :
    (block.len = size ∧ 2 ^ j ∣ block.addr) ∧ Tiled (2 ^ k) holds others (block :: out) t := by
  have hpages := dvd_wholePages (2 ^ k) size
  cases hserved with
  | mapped hle hmap =>
    obtain ⟨hbook, hmore, hne, hpage, hbound, hnew⟩ := h.book.granted hM hpages hmap
    have hpow : 2 ^ j ∣ 2 ^ k :=
      Nat.pow_dvd_pow 2 ((Nat.pow_le_pow_iff_right Nat.one_lt_two).1 hle)
    exact ⟨⟨rfl, Nat.dvd_trans hpow hpage⟩, h.put hM hbook ⟨hne, hs, hpage, hbound⟩ hnew hmore _⟩
  | @trimmed total start aligned _ _ _ _ hlt htotal hmap hdvd hge hend hfront hback =>
    have hpow : 2 ^ k ∣ 2 ^ j := Nat.pow_dvd_pow 2
      ((Nat.pow_le_pow_iff_right Nat.one_lt_two).1 (Nat.le_of_lt hlt))
    have hpage := Nat.dvd_trans hpow hdvd
    have htotal' := htotal ▸ Nat.dvd_add hpages (Nat.dvd_sub hpow (Nat.dvd_refl _))
    obtain ⟨hbook, hmore, hne, hbound, hnew⟩ :=
      trimmed hM h.book htotal' hpages hpage hmap hge hend hfront hback
    have hplaced : Placed (2 ^ k) ⟨aligned, size⟩ :=
      ⟨fun hzero => hne (Nat.le_zero.1 (hzero ▸ hge)), hs, hpage, Nat.lt_of_le_of_lt hend hbound⟩
    refine ⟨⟨rfl, hdvd⟩, h.put hM hbook hplaced (fun a ha hhas => hnew a ha ?_) hmore _⟩
    simp only [Slice.Has] at hhas ⊢
    omega

theorem alloc (hM : M.Keeps (2 ^ k) holds) (h : Tiled (2 ^ k) holds others out s)
    (ha : Pages.alloc M.traced (2 ^ k) size align s = .ok (.ok block, t)) :
    block.Answers size align ∧ Tiled (2 ^ k) holds others (block :: out) t := by
  rcases alloc_ok hM.toServes.traced ha with ⟨_, hbad, _⟩ | ⟨hs, j, hj, hserved⟩
  · cases hbad
  obtain ⟨⟨rfl, hdvd⟩, htiled⟩ := h.served hM hs hserved
  exact ⟨⟨⟨Nat.le_refl _, hj ▸ hdvd⟩, (htiled.tiles.placed _ List.mem_cons_self).nonnull⟩, htiled⟩

theorem free (hM : M.Keeps (2 ^ k) holds) (h : Tiled (2 ^ k) holds others (block :: out) s)
    (hf : Pages.free M.traced (2 ^ k) block s = .ok ((), t)) :
    Tiled (2 ^ k) holds others out t := by
  have hplaced := h.tiles.placed block List.mem_cons_self
  obtain ⟨es, htrim⟩ := free_ok hplaced hf
  have hreported : Book (2 ^ k) holds others (s.1, s.2.report es) := h.book.machine hM
  obtain ⟨hbook, hless⟩ := hreported.trim hM
    ⟨hplaced.page, dvd_wholePages _ _, h.tiles.span_subset List.mem_cons_self⟩ htrim
  have htiles := h.tiles.pop
  exact ⟨hbook, hless ▸ htiles⟩

theorem relocate {old : Slice} (hM : M.Keeps (2 ^ k) holds)
    (h : Tiled (2 ^ k) holds others (old :: out) s)
    (hr : AllocChain.relocate (Pages.alloc M.traced (2 ^ k)) (Pages.free M.traced (2 ^ k)) old size
      align s = .ok (.ok block, t)) :
    block.Answers size align ∧ Tiled (2 ^ k) holds others (block :: out) t := by
  rcases relocate_ok hr with ⟨_, hbad, _⟩ | ⟨fresh, u, heq, ha, hf⟩
  · cases hbad
  cases heq
  obtain ⟨hans, hnew⟩ := h.alloc hM ha
  have hcopied : Tiled (2 ^ k) holds others (old :: block :: out)
      (u.1, u.2.mapMemory (·.copyCommon old block)) :=
    ⟨hnew.book.machine hM, hnew.tiles.perm (.swap _ _ _)⟩
  exact ⟨hans, hcopied.free hM hf⟩

/-- The last pages of a block are unmapped, and the rest stays tiled. -/
theorem shrunk {old : Slice} {es : List Event} (hM : M.Keeps (2 ^ k) holds)
    (h : Tiled (2 ^ k) holds others (old :: out) s) (hs : 0 < size)
    (hle : wholePages (2 ^ k) size ≤ wholePages (2 ^ k) old.len)
    (htrim : M.traced.trim (old.addr + wholePages (2 ^ k) size)
      (wholePages (2 ^ k) old.len - wholePages (2 ^ k) size) s = .ok ((), t)) :
    Tiled (2 ^ k) holds others (⟨old.addr, size⟩ :: out) (t.1, t.2.report es) := by
  have hplaced := h.tiles.placed old List.mem_cons_self
  have hpages := dvd_wholePages (2 ^ k) size
  have hin : (Slice.mk (old.addr + wholePages (2 ^ k) size)
      (wholePages (2 ^ k) old.len - wholePages (2 ^ k) size)).addresses ⊆ mapped others s.1.1 := by
    refine fun a ha => h.tiles.span_subset List.mem_cons_self ?_
    simp only [Slice.mem_addresses, span] at ha ⊢
    omega
  obtain ⟨hbook, hless⟩ := h.book.trim hM
    ⟨Nat.dvd_add hplaced.page hpages, Nat.dvd_sub (dvd_wholePages _ _) hpages, hin⟩ htrim
  have htiles : Tiles _ others (⟨old.addr, size⟩ :: out) _ := h.tiles.shrink rfl hs hle
  exact ⟨hbook.machine hM, hless ▸ htiles⟩

end Tiled

/-- The page allocator keeps a ledger: the blocks that are out tile what is mapped. -/
theorem ledger (hM : M.Keeps (2 ^ k) holds) (others : Set Nat) :
    Ledger (allocator M.traced (2 ^ k)) Slice.Answers (Tiled (2 ^ k) holds others) where
  perm hp h := ⟨h.book, h.tiles.perm hp⟩
  report h := h.machine hM
  alloc h ha := h.alloc hM ha
  alloc_refused h ha := h.unserved hM (alloc_refused hM.toServes.traced ha)
  resize {out s old size align block t} h hn hs hr := by
    rcases resizeBy_ok hn hs hr with ⟨_, hbad, _⟩ | ⟨_, hadj⟩
    · cases hbad
    have hmeets : block.Answers size (normalizeAlign align) ∧
        Tiled (2 ^ k) holds others (block :: out) t := by
      cases adjust_ok hadj with
      | shrunk hdvd hle htrim =>
        have hnonnull := (h.tiles.placed old List.mem_cons_self).nonnull
        rw [← normalizeAlign_idem] at hdvd
        exact ⟨⟨⟨Nat.le_refl _, hdvd⟩, hnonnull⟩, h.shrunk hM (Nat.pos_of_ne_zero hs) hle htrim⟩
      | moved hreloc => exact h.relocate hM hreloc
    exact ⟨⟨Slice.meets_normalizeAlign.1 hmeets.1.1, hmeets.1.2⟩, hmeets.2⟩
  resize_refused {out s old size align e t} h hn hs hr :=
    h.unserved hM (perform_refused hM.toServes.traced (d := .resize old size align) hr)
  free h hf := h.free hM hf

/-- Freeing all blocks returns, and leaves mapped what was mapped at first. -/
theorem Tiled.freeAll (hM : M.Keeps (2 ^ k) holds) (h : Tiled (2 ^ k) holds others out s) :
    ∃ t, (allocator M.traced (2 ^ k)).freeAll out s = .ok ((), t) ∧
      Tiled (2 ^ k) holds others [] t := by
  induction out generalizing s with
  | nil => exact ⟨s, rfl, h⟩
  | cons block out ih =>
    have hplaced := h.tiles.placed block List.mem_cons_self
    obtain ⟨_, u, hf⟩ := (free_breaksOnly (s := s) hM.toServes.traced (.inr hplaced)).returns
    obtain ⟨t, hrest, ht⟩ := ih (h.free hM hf)
    exact ⟨t, Act.bind_ok.2 ⟨_, u, hf, hrest⟩, ht⟩

/-! ### Runs -/

/-- What is mapped while a client has some blocks. `others` was mapped before the first call. -/
structure MapsExactly (M : Mapper β) (pageSize : Nat) (others : Set Nat)
    (live : List (Lease (List Mapper.Call × β))) (s : (List Mapper.Call × β) × Machine) :
    Prop where
  /-- What is mapped is what was mapped before and the pages of the blocks, -/
  mapped : ∀ a, a ∈ Mapper.mapped others s.1.1 ↔
    a ∈ others ∨ ∃ lease ∈ live, (span pageSize lease.block).Has a
  /-- which lie apart from what was mapped before -/
  beside : ∀ lease ∈ live, ∀ a ∈ others, ¬ (span pageSize lease.block).Has a
  /-- and from each other. -/
  apart : live.Pairwise fun l l' => (span pageSize l.block).Disjoint (span pageSize l'.block)
  /-- The blocks have the room and the alignment that they were asked for with. -/
  answers : ∀ lease ∈ live, lease.block.Answers lease.size lease.align
  /-- Only what was mapped has been unmapped. -/
  covered : AllCovered pageSize others s.1.1
  /-- No deed breaks off, unless its size cannot be rounded up: no subtraction underflows. -/
  unbroken : ∀ d brk, Disciplined live d → (allocator M.traced pageSize).perform d s = .error brk →
    brk.fault = .addOverflow ∧ d.AtEdge pageSize
  /-- A deed that is refused leaves mapped what was mapped. It has at most asked for a mapping, and
  that was refused. -/
  refused : ∀ d e t, (allocator M.traced pageSize).perform d s = .ok (.error e, t) →
    Unserved M.traced s t ∧ Mapper.mapped others t.1.1 = Mapper.mapped others s.1.1
  /-- Once all blocks are freed, in any order, nothing is mapped but what was mapped before. -/
  freed : ∀ blocks, (live.map (·.block)).Perm blocks →
    ∃ t, (allocator M.traced pageSize).freeAll blocks s = .ok ((), t) ∧
      Mapper.mapped others t.1.1 = others

end Pages

/-- Over a mapper that maps whole pages where nothing is mapped yet: whatever a disciplined client
does with the page allocator, exactly the pages of its blocks are mapped, only mapped pages are ever
unmapped, and nothing stays mapped once all blocks are freed. -/
theorem mapsExactly_of_disciplined {β : Type} {M : Mapper β} {pageSize : Nat}
    {holds : Set Nat → β × Machine → Prop} {others : Set Nat} {b : β} {m : Machine}
    {live : List (Lease (List Mapper.Call × β))} {s : (List Mapper.Call × β) × Machine}
    (hM : M.Keeps pageSize holds) (hpage : Word.isPowerOfTwo pageSize = true)
    (hword : pageSize < wordLimit) (hstart : holds others (b, m))
    (hrun : Run (Pages.allocator M.traced pageSize) [] Disciplined (([], b), m) live s) :
    Pages.MapsExactly M pageSize others live s := by
  obtain ⟨k, rfl⟩ := Word.isPowerOfTwo_iff.1 hpage
  have hL := Pages.ledger hM others
  have hA := Pages.orderly M.traced (2 ^ k)
  have htenancy := hL.tenancy hA (fun h => h.machine hM) fun h => h.addrs_nodup
  have hnew : Leased Slice.Answers (Pages.Tiled (2 ^ k) holds others) [] (([], b), m) :=
    ⟨⟨.nil hstart, .nil _ _⟩, by simp⟩
  obtain ⟨hheld, hfits⟩ := htenancy.run hA (by simp) hnew hrun
  obtain ⟨hmapped, hbeside, hapart, hplaced⟩ := hheld.tiles
  rw [List.pairwise_map] at hapart
  have hfresh : ∀ lease ∈ live, ∀ {size align fresh t},
      Pages.alloc M.traced (2 ^ k) size align s = .ok (.ok fresh, t) →
      fresh.Disjoint lease.block := by
    intro lease hl size align fresh t ha
    have hnew := (hL.alloc hheld ha).2.tiles.apart
    exact ((List.pairwise_cons.1 hnew).1 _ (List.mem_map_of_mem hl)).mono
      (Pages.inside_span (Nat.two_pow_pos k) _) (Pages.inside_span (Nat.two_pow_pos k) _)
  simp only [List.mem_map, exists_exists_and_eq_and, forall_exists_index, and_imp,
    forall_apply_eq_imp_iff₂] at hmapped hbeside hplaced
  exact {
    mapped := hmapped
    beside := hbeside
    apart := hapart
    answers := hfits
    covered := hheld.book.covered
    unbroken := fun d brk hd hbrk =>
      Pages.perform_breaksOnly hM.toServes.traced hword hplaced hfresh hd brk hbrk
    refused := fun d e t h =>
      have hu := Pages.perform_refused hM.toServes.traced h
      ⟨hu, Pages.mapped_unserved hu⟩
    freed := by
      intro blocks hp
      obtain ⟨t, ht, htiled⟩ := Pages.Tiled.freeAll hM (hL.perm hp hheld)
      exact ⟨t, ht, htiled.tiles.eq_of_nil⟩ }

/-! ### The platform -/

namespace Platform

variable {p : Platform} {size align start : Nat}

/-- A request that is met lies beyond all before it. -/
theorem reserve_next (ha : 0 < align) (h : (p.reserve size align).1 = some start) :
    p.next ≤ start ∧ (p.reserve size align).2.next = start + size := by
  have hbeyond : p.next ≤ (p.next + align - 1) / align * align :=
    (Pages.wholePages_bounds ha p.next).1
  simp only [reserve] at h ⊢
  split_ifs at h ⊢
  cases h
  exact ⟨hbeyond, rfl⟩

theorem reserve_none (h : (p.reserve size align).1 = none) : (p.reserve size align).2 = p := by
  simp only [reserve] at h ⊢
  split_ifs at h ⊢
  rfl

/-- All that is mapped lies below the addresses that were not handed out yet. -/
def Beneath (mapped : Set Nat) (s : Platform × Machine) : Prop :=
  0 < s.1.next ∧ ∀ a ∈ mapped, a < s.1.next

end Platform

theorem Pages.platformMapper_map (len : Nat) (s : Platform × Machine) :
    platformMapper.map len s = .ok ((s.1.reserve len platformPageSize).1,
      ((s.1.reserve len platformPageSize).2, s.2)) := rfl

theorem Pages.keeps_platform : platformMapper.Keeps platformPageSize Platform.Beneath where
  toServes := serves_platform
  machine h := h
  refused h hmap := by
    obtain ⟨hfound, rfl⟩ := Prod.mk.inj (Except.ok.inj (platformMapper_map .. ▸ hmap))
    simpa only [Platform.Beneath, Platform.reserve_none hfound] using h
  granted {_ s len start _} h _ hmap := by
    obtain ⟨hfound, rfl⟩ := Prod.mk.inj (Except.ok.inj (platformMapper_map .. ▸ hmap))
    obtain ⟨hbeyond, hnext⟩ := Platform.reserve_next (by decide) hfound
    obtain ⟨hpos, hbelow⟩ := h
    refine ⟨by omega, fun a ha hhas => ?_, ?_, ?_⟩
    · have := hbelow a ha
      simp only [Slice.Has] at hhas
      omega
    · simp only [hnext]
      omega
    · simp only [hnext]
      rintro a (ha | ha)
      · have := hbelow a ha
        omega
      · exact ha.2
  unmapped h _ hunmap := by
    cases hunmap
    exact ⟨h.1, fun a ha => h.2 a ha.1⟩

/-- Five bytes more than a page, then a block at a multiple of sixteen pages, which is mapped with
fifteen pages too many; the first block shrinks, the second one grows and moves, and a request for
too much is refused. -/
theorem mapsExactly_of_five_requests :
    ∃ live s, Run (Pages.allocator Pages.platformMapper.traced 4096) [] Disciplined
        (([], .fresh), ⟨.zero, [], []⟩) live s ∧
      live.map (·.block) = [⟨2 ^ 56 + 73728, 5000⟩, ⟨2 ^ 56, 100⟩] ∧
      s.1.1 = [.map 8192 (some (2 ^ 56)), .map 65536 (some (2 ^ 56 + 8192)),
        .unmap (2 ^ 56 + 8192) 57344, .unmap (2 ^ 56 + 69632) 4096, .unmap (2 ^ 56 + 4096) 4096,
        .map 8192 (some (2 ^ 56 + 73728)), .unmap (2 ^ 56 + 65536) 4096, .map (2 ^ 62) none] ∧
      Pages.MapsExactly Pages.platformMapper 4096 ∅ live s := by
  have hlast : ((Pages.allocator Pages.platformMapper.traced 4096).play Disciplined
      [.alloc 5000 8, .alloc 100 65536, .resize ⟨2 ^ 56, 5000⟩ 100 0,
        .resize ⟨2 ^ 56 + 65536, 100⟩ 5000 1, .alloc (2 ^ 62) 8] []
      (([], .fresh), ⟨.zero, [], []⟩)).map (fun r => (r.1.map (·.block), r.2.1.1)) =
        some ([⟨2 ^ 56 + 73728, 5000⟩, ⟨2 ^ 56, 100⟩],
          [.map 8192 (some (2 ^ 56)), .map 65536 (some (2 ^ 56 + 8192)),
            .unmap (2 ^ 56 + 8192) 57344, .unmap (2 ^ 56 + 69632) 4096,
            .unmap (2 ^ 56 + 4096) 4096, .map 8192 (some (2 ^ 56 + 73728)),
            .unmap (2 ^ 56 + 65536) 4096, .map (2 ^ 62) none]) := by
    decide +kernel
  obtain ⟨⟨live, s⟩, hplay, hends⟩ := Option.map_eq_some_iff.1 hlast
  obtain ⟨hblocks, hcalls⟩ := Prod.mk.inj hends
  have hrun : Run (Pages.allocator Pages.platformMapper.traced 4096) [] Disciplined _ live s :=
    Run.start.play hplay
  have hstart : Platform.Beneath ∅ (.fresh, ⟨.zero, [], []⟩) := ⟨by decide, by simp⟩
  exact ⟨live, s, hrun, hblocks, hcalls,
    mapsExactly_of_disciplined Pages.keeps_platform (by decide) (by decide) hstart hrun⟩

end AllocChain
