import Mathlib.Data.List.Nodup
import AllocChain.Proofs.Classes.Steps

/-!
The blocks that a general-purpose allocator has handed out, and the places that they lie in. A
block starts where its place starts and does not reach beyond it (`Slice.Starts`), and there is one
block for each place (`Fills`). `Kept` is the invariant of the allocator over a supply of blocks
that meet their requests: the table is sound, what it stands on is held, and the blocks fill the
places. Requests, releases and resizes keep it, whatever slices are named in them.
-/

namespace AllocChain

/-- The slice starts where the place starts, and ends within it. -/
structure Slice.Starts (s place : Slice) : Prop where
  addr : s.addr = place.addr
  pos : 0 < s.len
  len : s.len ≤ place.len

theorem Slice.Starts.inside {s place : Slice} (h : s.Starts place) : s.Inside place := by
  have h1 := h.addr
  have h2 := h.len
  simp only [Inside]
  omega

/-- The blocks and the places belong together one by one. -/
structure Fills (blocks places : List Slice) : Prop where
  addrs : (blocks.map (·.addr)).Perm (places.map (·.addr))
  starts : ∀ block ∈ blocks, ∃ place ∈ places, block.Starts place

namespace Fills

variable {blocks blocks' places places' : List Slice} {block place : Slice}

theorem perm (h : Fills blocks places) (hb : blocks.Perm blocks') (hp : places.Perm places') :
    Fills blocks' places' where
  addrs := ((hb.map _).symm.trans h.addrs).trans (hp.map _)
  starts b hmem := by
    obtain ⟨p, hmem', hst⟩ := h.starts b (hb.mem_iff.2 hmem)
    exact ⟨p, hp.mem_iff.1 hmem', hst⟩

theorem cons (h : Fills blocks places) (hst : block.Starts place) :
    Fills (block :: blocks) (place :: places) where
  addrs := by
    rw [List.map_cons, List.map_cons, hst.addr]
    exact h.addrs.cons _
  starts := by
    refine List.forall_mem_cons.2 ⟨⟨place, List.mem_cons_self, hst⟩, ?_⟩
    intro b hmem
    obtain ⟨p, hmem', hst'⟩ := h.starts b hmem
    exact ⟨p, List.mem_cons_of_mem _ hmem', hst'⟩

theorem uncons (h : Fills blocks (place :: places))
    (hd : ((place :: places).map (·.addr)).Nodup) :
    ∃ block rest, blocks.Perm (block :: rest) ∧ block.Starts place ∧ Fills rest places := by
  have haddr : place.addr ∈ blocks.map (·.addr) :=
    h.addrs.mem_iff.2 (List.mem_map_of_mem List.mem_cons_self)
  obtain ⟨block, hmem, heq⟩ := List.mem_map.1 haddr
  obtain ⟨pre, post, rfl⟩ := List.append_of_mem hmem
  have hsplit : (pre ++ block :: post).Perm (block :: (pre ++ post)) := List.perm_middle
  have hnew := (List.nodup_cons.1 hd).1
  refine ⟨block, pre ++ post, hsplit, ?_, ?_, ?_⟩
  · obtain ⟨p, hp, hst⟩ := h.starts block hmem
    rcases List.mem_cons.1 hp with rfl | hother
    · exact hst
    · exact absurd (List.mem_map.2 ⟨p, hother, hst.addr.symm.trans heq⟩) hnew
  · have hall := (hsplit.map (·.addr)).symm.trans h.addrs
    rw [List.map_cons, List.map_cons, heq] at hall
    exact hall.cons_inv
  · intro b hb
    obtain ⟨p, hp, hst⟩ := h.starts b (hsplit.mem_iff.2 (List.mem_cons_of_mem _ hb))
    rcases List.mem_cons.1 hp with rfl | hother
    · -- two blocks would start at the same address
      have hdup : ((block :: (pre ++ post)).map (·.addr)).Nodup :=
        (((hsplit.map (·.addr)).symm.trans h.addrs).nodup_iff).2 hd
      exact absurd (List.mem_map.2 ⟨b, hb, hst.addr.trans heq.symm⟩) (List.nodup_cons.1 hdup).1
    · exact ⟨p, hother, hst⟩

end Fills

namespace GeneralPurpose

variable {β : Type} {B : Allocator β} {holds : List Slice → β × Machine → Prop}
  {s t : (GeneralPurpose × β) × Machine} {blocks : List Slice} {mem : Slice} {size align : Nat}

/-- The table is sound and stands on what is held, and the blocks fill its places. -/
structure Kept (holds : List Slice → β × Machine → Prop) (blocks : List Slice)
    (s : (GeneralPurpose × β) × Machine) : Prop where
  sound : s.1.1.Sound
  backed : holds s.1.1.held (s.1.2, s.2)
  roomy : ∀ b ∈ s.1.1.buckets, b.Roomy
  nonempty : ∀ large ∈ s.1.1.large, 0 < large.len
  fills : Fills blocks s.1.1.places

namespace Kept

theorem spread (hB : Supply B Slice.Meets holds) (h : Kept holds blocks s) : s.1.1.Spread :=
  ⟨hB.apart h.backed, h.roomy, h.nonempty⟩

theorem perm {blocks' : List Slice} (h : Kept holds blocks s) (hp : blocks.Perm blocks') :
    Kept holds blocks' s :=
  { h with fills := h.fills.perm hp (.refl _) }

theorem inside (hB : Supply B Slice.Meets holds) (h : Kept holds blocks s) {block : Slice}
    (hb : block ∈ blocks) : ∃ held ∈ s.1.1.held, block.Inside held := by
  obtain ⟨place, hp, hst⟩ := h.fills.starts block hb
  obtain ⟨held, hmem, hin⟩ := (h.spread hB).inside hp
  exact ⟨held, hmem, hst.inside.trans hin⟩

theorem write (hB : Supply B Slice.Meets holds) (h : Kept holds blocks s) {m : Machine}
    (hw : Memory.WrittenIn blocks s.2.memory m.memory) : Kept holds blocks (s.1, m) :=
  { h with backed := hB.write h.backed (hw.inside fun _ hb => h.inside hB hb) }

theorem eq_of_addr (hB : Supply B Slice.Meets holds) (h : Kept holds blocks s) {block old : Slice}
    (hb : block ∈ blocks) (ho : old ∈ blocks) (heq : block.addr = old.addr) : block = old := by
  have hd : (blocks.map (·.addr)).Nodup :=
    h.fills.addrs.nodup_iff.2 ((h.spread hB).addrs_nodup h.sound)
  exact List.inj_on_of_nodup_map hd hb ho heq

theorem apart (hB : Supply B Slice.Meets holds) (h : Kept holds blocks s) :
    blocks.Pairwise Slice.Disjoint := by
  have hspread := h.spread hB
  have haddrs : blocks.Pairwise fun b b' => b.addr ≠ b'.addr :=
    List.pairwise_map.1 (h.fills.addrs.nodup_iff.2 (hspread.addrs_nodup h.sound))
  refine haddrs.imp_of_mem fun {b b'} hb hb' hne => ?_
  obtain ⟨place, hp, hst⟩ := h.fills.starts b hb
  obtain ⟨place', hp', hst'⟩ := h.fills.starts b' hb'
  obtain ⟨o, ho⟩ := mem_places.1 hp
  obtain ⟨o', ho'⟩ := mem_places.1 hp'
  refine (ho.disjoint hspread ho' fun heq => hne ?_).mono hst.inside hst'.inside
  subst heq
  rw [hst.addr, hst'.addr, ho.unique ho']

/-- The block that lies in a place, and all others. -/
theorem uncons (hB : Supply B Slice.Meets holds) (h : Kept holds blocks s) {place : Slice}
    {places : List Slice} (hp : s.1.1.places.Perm (place :: places)) :
    ∃ block rest, blocks.Perm (block :: rest) ∧ block.Starts place ∧ Fills rest places :=
  (h.fills.perm (.refl _) hp).uncons
    ((hp.map (·.addr)).nodup_iff.1 ((h.spread hB).addrs_nodup h.sound))

/-! ### Requests -/

/-- Putting up a bucket, or finding one, hands nothing out. -/
theorem roomed (hB : Supply B Slice.Meets holds) (h : Kept holds blocks s) {c : Nat}
    {found : Except AllocError Nat} (hr : Roomed B c s found t) : Kept holds blocks t := by
  have hback := hr.held hB.toLedger h.backed
  cases hr with
  | found _ _ => exact h
  | refused _ => exact { h with backed := hback }
  | @created bs storage u es occupied hc hcall hocc =>
    obtain ⟨⟨hlen, halign⟩, _⟩ := hB.alloc h.backed hcall
    rw [normalizeAlign_two_pow] at halign
    have hnew : (Bucket.new storage (2 ^ c) (s.1.1.bucketSize / 2 ^ c)).Roomy :=
      ⟨hlen, halign⟩
    refine ⟨h.sound.append hc (Bucket.sound_new _ _ _) hocc, hback, ?_, h.nonempty, ?_⟩
    · intro b hb
      rcases List.mem_cons.1 ((buckets_append hc _).mem_iff.1 hb) with rfl | hold
      · exact hnew
      · exact h.roomy b hold
    · have hplaces := parts_append Bucket.places hc
        (Bucket.new storage (2 ^ c) (s.1.1.bucketSize / 2 ^ c)) occupied
      rw [Bucket.places_new, List.nil_append] at hplaces
      exact h.fills.perm (.refl _) hplaces.symm

theorem allocSmall (hB : Supply B Slice.Meets holds) (h : Kept holds blocks s) {c : Nat}
    {r : Answer} (hclass : s.1.1.sizeClass size align = .ok (some c)) (hs : 0 < size)
    (hpow : ∃ k, align = 2 ^ k) (ha : GeneralPurpose.allocSmall B c size s = .ok (r, t)) :
    (∃ e, r = .error e ∧ Kept holds blocks t) ∨
      ∃ block, r = .ok block ∧ block.len = size ∧ align ∣ block.addr ∧
        Kept holds (block :: blocks) t := by
  rcases allocSmall_ok ha with ⟨e, found, rfl, hroom⟩ |
    ⟨index, u, bs, b, addr, b', es, hroom, hc, hi, htake, rfl, rfl⟩
  · exact .inl ⟨e, rfl, h.roomed hB hroom⟩
  obtain ⟨hsize, halign⟩ := sizeClass_eq_some hclass
  have hk := h.roomed hB hroom
  have hbucket := (hk.sound.mem_bucket hc hi).1
  have hshape := Bucket.takeSlot_shape htake
  obtain ⟨hsound, slot, _, _, rfl, hplaces⟩ := Bucket.takeSlot_ok hbucket htake
  have hroomy := hk.roomy b (mem_buckets.2 ⟨c, index, bs, hc, hi⟩)
  have hlen : (b.place slot).len = 2 ^ c := hbucket.objSize
  have hdvd : align ∣ (b.place slot).addr := by
    refine Nat.dvd_trans (dvd_two_pow hpow halign) ?_
    rw [← hbucket.objSize]
    exact hroomy.dvd_place slot
  have hst : Slice.Starts ⟨(b.place slot).addr, size⟩ (b.place slot) :=
    ⟨rfl, hs, by rw [hlen]; exact hsize⟩
  obtain ⟨others, hall, hset, _⟩ := buckets_at hc hi
  obtain ⟨rest, hrest, hrest', _⟩ := parts_at Bucket.places hc hi
  refine .inr ⟨_, rfl, rfl, hdvd, hk.sound.set hc hi hsound, ?_, ?_, hk.nonempty,
    ?_⟩
  · exact hB.perm (held_set hc hi hshape.storage).symm (hB.report hk.backed)
  · intro b'' hb''
    rcases List.mem_cons.1 ((hset b').mem_iff.1 hb'') with rfl | hold
    · exact hshape.roomy hroomy
    · exact hk.roomy b'' (hall.mem_iff.2 (List.mem_cons_of_mem _ hold))
  · refine (hk.fills.cons hst).perm (.refl _) ?_
    exact ((hrest.cons _).trans (hplaces.symm.append_right rest)).trans (hrest' b').symm

/-- What a request that is answered has done. -/
theorem alloc (hB : Supply B Slice.Meets holds) (h : Kept holds blocks s) {r : Answer}
    (ha : GeneralPurpose.alloc B size align s = .ok (r, t)) :
    (∃ e, r = .error e ∧ Kept holds blocks t) ∨
      ∃ block, r = .ok block ∧ 0 < size ∧ block.Meets size align ∧
        Kept holds (block :: blocks) t := by
  rcases alloc_ok ha with ⟨e, rfl, rfl⟩ | ⟨hs, hpow, ⟨c, hclass, hsmall⟩ | hlarge⟩
  · exact .inl ⟨e, rfl, h⟩
  · rcases h.allocSmall hB hclass hs hpow hsmall with hrefused | ⟨block, rfl, hlen, hdvd, hk⟩
    · exact .inl hrefused
    · exact .inr ⟨block, rfl, hs, ⟨Nat.le_of_eq hlen.symm, hdvd⟩, hk⟩
  · have hback := alloc_held hB.toLedger ha h.backed
    obtain ⟨u, ⟨e, rfl, hcall, rfl⟩ | ⟨block, es, rfl, hcall, rfl⟩⟩ := allocLarge_ok hlarge
    · exact .inl ⟨e, rfl, { h with backed := hback }⟩
    · obtain ⟨⟨hlen, hdvd⟩, _⟩ := hB.alloc h.backed hcall
      rw [normalizeAlign_idem] at hdvd
      have hst : block.Starts block := ⟨rfl, Nat.lt_of_lt_of_le hs hlen, Nat.le_refl _⟩
      refine .inr ⟨block, rfl, hs, ⟨hlen, hdvd⟩, h.sound.large _, hback, h.roomy, ?_, ?_⟩
      · intro large hmem
        rcases List.mem_append.1 hmem with hold | hnew
        · exact h.nonempty large hold
        · rw [List.mem_singleton.1 hnew]
          exact hst.pos
      · exact (h.fills.cons hst).perm (.refl _) (parts_push Bucket.places).symm

/-! ### Releases -/

/-- Giving a slot back takes its block away, and no other. -/
theorem released (hB : Supply B Slice.Meets holds) (h : Kept holds blocks s) {c i k : Nat}
    {span : Slice} (hspan : s.1.1.Spans (.slot c i k) span) (hr : Released B c i k s t)
    (hback : holds t.1.1.held (t.1.2, t.2)) :
    ∃ block rest, blocks.Perm (block :: rest) ∧ block.addr = span.addr ∧ Kept holds rest t := by
  obtain ⟨bs, b, hc, hi, hk, rfl⟩ := hspan
  have hbucket := (h.sound.mem_bucket hc hi).1
  have hroomy := h.roomy b (mem_buckets.2 ⟨c, i, bs, hc, hi⟩)
  obtain ⟨others, hall, hset, herase⟩ := buckets_at hc hi
  obtain ⟨rest, hrest, hrest', hgone⟩ := parts_at Bucket.places hc hi
  cases hr with
  | @kept bs' b₁ b' es hc' hi' hslot _ =>
    obtain rfl : bs = bs' := Option.some.inj (hc.symm.trans hc')
    obtain rfl : b = b₁ := Option.some.inj (hi.symm.trans hi')
    obtain ⟨hsound, hplaces⟩ := Bucket.releaseSlot_ok hbucket hk hslot
    have hsplit : s.1.1.places.Perm (b.place k :: (b'.places ++ rest)) :=
      hrest.trans (hplaces.append_right rest)
    obtain ⟨block, blocks', hp, hst, hfills⟩ := h.uncons hB hsplit
    refine ⟨block, blocks', hp, hst.addr, h.sound.set hc hi hsound, hback, ?_,
      h.nonempty, hfills.perm (.refl _) (hrest' b').symm⟩
    intro b'' hb''
    rcases List.mem_cons.1 ((hset b').mem_iff.1 hb'') with rfl | hold
    · exact (Bucket.releaseSlot_shape hslot).roomy hroomy
    · exact h.roomy b'' (hall.mem_iff.2 (List.mem_cons_of_mem _ hold))
  | @emptied bs' b₁ b' occupied es u hc' hi' hslot hzero hocc _ =>
    obtain rfl : bs = bs' := Option.some.inj (hc.symm.trans hc')
    obtain rfl : b = b₁ := Option.some.inj (hi.symm.trans hi')
    obtain ⟨hsound, hplaces⟩ := Bucket.releaseSlot_ok hbucket hk hslot
    rw [hsound.places_eq_nil hzero] at hplaces
    have hsplit : s.1.1.places.Perm (b.place k :: rest) :=
      hrest.trans (hplaces.append_right rest)
    obtain ⟨block, blocks', hp, hst, hfills⟩ := h.uncons hB hsplit
    refine ⟨block, blocks', hp, hst.addr, h.sound.eraseIdx hc hi hocc, hback, ?_,
      h.nonempty, hfills.perm (.refl _) (hgone occupied).symm⟩
    intro b'' hb''
    exact h.roomy b'' (hall.mem_iff.2 (List.mem_cons_of_mem _ (herase.mem_iff.1 hb'')))

/-- What is given back is a block that starts at the address, if there is one; anything else is
left alone. -/
theorem free (hB : Supply B Slice.Meets holds) (h : Kept holds blocks s)
    (hf : GeneralPurpose.free B mem s = .ok ((), t)) :
    mem.isNull = true ∧ t = s ∨
      mem.isNull = false ∧
        (Kept holds blocks t ∧ (∀ block ∈ blocks, block.addr ≠ mem.addr) ∨
          ∃ block rest, blocks.Perm (block :: rest) ∧ block.addr = mem.addr ∧
            Kept holds rest t) := by
  have hback := free_held hB.toLedger hf h.backed
  cases free_ok hf with
  | null hn => exact .inl ⟨hn, rfl⟩
  | unknown hn howner =>
    refine .inr ⟨hn, .inl ⟨{ h with backed := hback }, ?_⟩⟩
    intro block hb
    obtain ⟨place, hp, hst⟩ := h.fills.starts block hb
    rw [hst.addr]
    exact owner_none h.sound (h.spread hB) howner hp
  | slot hn howner hrel =>
    obtain ⟨span, hspan, haddr⟩ := owner_spans h.sound howner
    obtain ⟨block, rest, hp, hblock, hk⟩ := h.released hB hspan hrel hback
    exact .inr ⟨hn, .inr ⟨block, rest, hp, hblock.trans haddr, hk⟩⟩
  | @large i large es u hn howner hi _ =>
    obtain ⟨span, hspan, haddr⟩ := owner_large howner
    obtain rfl : large = span := Option.some.inj (hi.symm.trans hspan)
    obtain ⟨places, hall, _, hswap⟩ := parts_large Bucket.places hi
    obtain ⟨block, rest, hp, hst, hfills⟩ := h.uncons hB hall
    refine .inr ⟨hn, .inr ⟨block, rest, hp, hst.addr.trans haddr, h.sound.large _, hback, h.roomy,
      ?_, hfills.perm (.refl _) hswap.symm⟩⟩
    intro large' hmem
    exact h.nonempty large' ((swapRemove_perm hi).mem_iff.2 (List.mem_cons_of_mem _ hmem))

/-- A block that is moved gets a new place, and its old one is given back. -/
theorem relocate (hB : Supply B Slice.Meets holds) (h : Kept holds blocks s) {r : Answer}
    {old : Slice} {rest : List Slice} (hn : mem.isNull = false) (hp : blocks.Perm (old :: rest))
    (haddr : old.addr = mem.addr)
    (hr : AllocChain.relocate (GeneralPurpose.alloc B) (GeneralPurpose.free B) mem size align s =
      .ok (r, t)) :
    (∃ e, r = .error e ∧ Kept holds blocks t) ∨
      ∃ block old rest, r = .ok block ∧ blocks.Perm (old :: rest) ∧ old.addr = mem.addr ∧
        block.Meets size align ∧ Kept holds (block :: rest) t := by
  rcases relocate_ok hr with ⟨e, rfl, ha⟩ | ⟨fresh, u, rfl, ha, hf⟩
  · rcases h.alloc hB ha with ⟨_, _, hk⟩ | ⟨_, hbad, _⟩
    · exact .inl ⟨e, rfl, hk⟩
    · cases hbad
  rcases h.alloc hB ha with ⟨_, hbad, _⟩ | ⟨block, heq, _, hmeets, hk⟩
  · cases hbad
  cases heq
  have hcopied : Kept holds (fresh :: blocks) (u.1, u.2.mapMemory (·.copyCommon mem fresh)) :=
    hk.write hB ((Memory.writtenIn_copyCommon _ _ _).mem List.mem_cons_self)
  have hold : old ∈ fresh :: blocks := List.mem_cons_of_mem _ (hp.mem_iff.2 List.mem_cons_self)
  rcases hcopied.free hB hf with ⟨hn', _⟩ | ⟨_, ⟨_, hnone⟩ | ⟨block, others, hp', haddr', hend⟩⟩
  · rw [hn] at hn'
    cases hn'
  · exact absurd haddr (hnone old hold)
  · have hsame : block = old :=
      hcopied.eq_of_addr hB (hp'.mem_iff.2 List.mem_cons_self) hold (haddr'.trans haddr.symm)
    subst hsame
    have hmove : (block :: others).Perm (block :: fresh :: rest) :=
      (hp'.symm.trans (hp.cons fresh)).trans (.swap _ _ _)
    exact .inr ⟨fresh, block, rest, rfl, hp, haddr, hmeets, hend.perm hmove.cons_inv⟩

/-- What a valid resize has done: it was refused, or the block that starts at the address has been
replaced. -/
theorem adjust (hB : Supply B Slice.Meets holds) (h : Kept holds blocks s) {r : Answer}
    (hn : mem.isNull = false) (hs : size ≠ 0) {k : Nat}
    (ha : GeneralPurpose.adjust B mem size (2 ^ k) s = .ok (r, t)) :
    (∃ e, r = .error e ∧ Kept holds blocks t) ∨
      ∃ block old rest, r = .ok block ∧ blocks.Perm (old :: rest) ∧ old.addr = mem.addr ∧
        block.Meets size (2 ^ k) ∧ Kept holds (block :: rest) t := by
  have hpos : 0 < size := Nat.pos_of_ne_zero hs
  cases adjust_ok ha with
  | unknown => exact .inl ⟨_, rfl, h⟩
  | @inSlot c i k' es howner hclass =>
    obtain ⟨hsize, halign⟩ := sizeClass_eq_some hclass
    obtain ⟨span, hspan, haddr⟩ := owner_spans h.sound howner
    obtain ⟨places, hplaces⟩ := hspan.split
    obtain ⟨old, rest, hp, hst, hfills⟩ := h.uncons hB hplaces
    have hnew : Slice.Starts ⟨mem.addr, size⟩ span :=
      ⟨haddr.symm, hpos, by rw [hspan.slot_size h.sound]; exact hsize⟩
    have hdvd : normalizeAlign (2 ^ k) ∣ mem.addr := by
      rw [normalizeAlign_two_pow, ← haddr]
      exact Nat.dvd_trans (dvd_two_pow ⟨k, rfl⟩ halign) (hspan.slot_dvd h.sound (h.spread hB))
    refine .inr ⟨_, old, rest, rfl, hp, hst.addr.trans haddr, ⟨Nat.le_refl _, hdvd⟩, ?_⟩
    exact { h with
      backed := hB.report h.backed
      fills := (hfills.cons hnew).perm (.refl _) hplaces.symm }
  | moved howner hreloc =>
    obtain ⟨span, hspan, haddr⟩ := owner_spans h.sound howner
    obtain ⟨places, hplaces⟩ := hspan.split
    obtain ⟨old, rest, hp, hst, _⟩ := h.uncons hB hplaces
    exact h.relocate hB hn hp (hst.addr.trans haddr) hreloc
  | @refused i large e u howner hi hcall =>
    obtain ⟨held, hall, _⟩ := held_large hi
    have hnull := owner_large_isNull howner hi hn
    have hback := hB.resize_refused (hB.perm hall h.backed) hnull hs hcall
    exact .inl ⟨e, rfl, { h with backed := hB.perm hall.symm hback }⟩
  | @behind i large resized u es howner hi hcall =>
    obtain ⟨held, hall, hheld, _⟩ := held_large hi
    obtain ⟨places, hplaces, hplaces', _⟩ := parts_large Bucket.places hi
    have hnull := owner_large_isNull howner hi hn
    obtain ⟨hmeets, hback⟩ := hB.resize (hB.perm hall h.backed) hnull hs hcall
    obtain ⟨old, rest, hp, hst, hfills⟩ := h.uncons hB hplaces
    have hnew : resized.Starts resized :=
      ⟨rfl, Nat.lt_of_lt_of_le hpos hmeets.1, Nat.le_refl _⟩
    have haddr := owner_large_addr howner hi
    refine .inr ⟨resized, old, rest, rfl, hp, hst.addr.trans haddr, hmeets, h.sound.large _, ?_,
      h.roomy, ?_, (hfills.cons hnew).perm (.refl _) (hplaces' resized).symm⟩
    · exact hB.perm (hheld resized).symm (hB.report hback)
    · intro large' hmem
      rcases List.mem_or_eq_of_mem_set hmem with hold | rfl
      · exact h.nonempty large' hold
      · exact hnew.pos

theorem resize (hB : Supply B Slice.Meets holds) (h : Kept holds blocks s) {r : Answer}
    (hn : mem.isNull = false) (hs : size ≠ 0)
    (hr : (allocator B).resize mem size align s = .ok (r, t)) :
    (∃ e, r = .error e ∧ Kept holds blocks t) ∨
      ∃ block old rest, r = .ok block ∧ blocks.Perm (old :: rest) ∧ old.addr = mem.addr ∧
        block.Meets size align ∧ Kept holds (block :: rest) t := by
  rcases resizeBy_ok hn hs hr with ⟨e, rfl, rfl⟩ | ⟨⟨k, hpow⟩, hadj⟩
  · exact .inl ⟨e, rfl, h⟩
  rw [hpow] at hadj
  rcases h.adjust hB hn hs hadj with hrefused | ⟨block, old, rest, rfl, hp, haddr, hmeets, hk⟩
  · exact .inl hrefused
  · rw [← hpow, Slice.meets_normalizeAlign] at hmeets
    exact .inr ⟨block, old, rest, rfl, hp, haddr, hmeets, hk⟩

end Kept

/-! ### A new allocator -/

theorem Sound.new (bucketSize : Nat) : (GeneralPurpose.new bucketSize).Sound where
  buckets {c bs} hc b hb := by
    rw [GeneralPurpose.new, Vector.toList_replicate, List.getElem?_replicate] at hc
    split at hc
    · cases hc
      cases hb
    · cases hc
  occupied {c} := by
    rw [GeneralPurpose.new, BitSet.test_empty, Vector.toList_replicate, List.getElem?_replicate]
    split <;> simp

theorem buckets_new (bucketSize : Nat) : (GeneralPurpose.new bucketSize).buckets = [] := by
  rw [buckets, GeneralPurpose.new, Vector.toList_replicate]
  rfl

theorem Sound.cleared (g : GeneralPurpose) : Sound { g with
    classes := Vector.replicate classCount [], occupied := .empty, large := [] } :=
  ⟨(Sound.new 0).buckets, (Sound.new 0).occupied⟩

theorem Kept.new {b : β} {m : Machine} (bucketSize : Nat) (h : holds [] (b, m)) :
    Kept holds [] ((GeneralPurpose.new bucketSize, b), m) := by
  have hnil := buckets_new bucketSize
  refine ⟨.new bucketSize, ?_, ?_, ?_, ?_⟩
  · rw [held, hnil]
    exact h
  · rw [hnil]
    simp
  · simp [GeneralPurpose.new]
  · rw [places, hnil]
    exact ⟨.nil, by simp⟩

end GeneralPurpose
end AllocChain
