import AllocChain.Proofs.Rooms

/-!
The rooms of a general-purpose allocator over one whose blocks may be too short. A bucket has the
room that was asked for its slots (`Bucket.span`), whatever storage came of it, so its slots lie in
rooms that lie apart, and so do the large blocks (`Quartered`). A slot that is not found again when
it is given back stays taken. What is handed out keeps rooms of its own through all requests, frees
and resizes (`GeneralPurpose.spacious`), and nothing is left behind when the table is taken down
(`Quartered.destroy`).
-/

namespace AllocChain

open Memory

namespace Bucket

/-- The room of a bucket: its storage, with all bytes of its slots. -/
def span (b : Bucket) : Slice := b.storage.widened (b.slots.length * b.objSize)

variable {b b' : Bucket} {slot : Nat} {place : Slice}

theorem SameShape.span (h : SameShape b b') : b'.span = b.span := by
  rw [Bucket.span, Bucket.span, h.storage, h.objSize, h.length]

theorem place_in_span (hslot : slot < b.slots.length) : (b.place slot).Inside b.span := by
  have hmul : (slot + 1) * b.objSize ≤ b.slots.length * b.objSize := Nat.mul_le_mul_right _ hslot
  rw [Nat.succ_mul] at hmul
  simp only [Slice.Inside, Bucket.place, Bucket.span, Slice.widened]
  omega

theorem places_in_span (hp : place ∈ b.places) : place.Inside b.span := by
  obtain ⟨slot, hget, rfl⟩ := mem_places.1 hp
  exact place_in_span (Bitmap.lt_of_get hget)

end Bucket

namespace GeneralPurpose

variable {β : Type} {B : Allocator β} {holds : List Slice → β → Prop}
  {s t : (GeneralPurpose × β) × Machine} {g : GeneralPurpose} {b : β}
  {wide rooms rooms' rest : List Slice} {room place block mem : Slice} {c i k size align : Nat}
  {r : Answer}

/-- The rooms of the buckets, and those of the large blocks. -/
def spans (g : GeneralPurpose) (wide : List Slice) : List Slice :=
  parts (fun b => [b.span]) { g with large := wide }

/-- The taken slots, and the rooms of the large blocks. -/
def quarters (g : GeneralPurpose) (wide : List Slice) : List Slice :=
  { g with large := wide }.places

/-- What the table stands on has rooms behind, and each room that was handed out lies in a taken
slot or in the room of a large block of its own. -/
structure Quartered (holds : List Slice → β → Prop) (wide rooms : List Slice) (g : GeneralPurpose)
    (b : β) : Prop where
  sound : g.Sound
  large : Covered g.large wide
  nonempty : ∀ room ∈ wide, 0 < room.len
  backed : holds (g.spans wide) b
  rooms : Covered rooms (g.quarters wide)

/-- What was handed out lies in quarters, whichever rooms the large blocks have. -/
def Housed (holds : List Slice → β → Prop) (rooms : List Slice) (s : GeneralPurpose × β) : Prop :=
  ∃ wide, Quartered holds wide rooms s.1 s.2

namespace Quartered

/-- Every quarter lies in the room of a bucket or of a large block. -/
theorem inside (hp : place ∈ g.quarters wide) : ∃ span ∈ g.spans wide, place.Inside span := by
  rcases List.mem_append.1 hp with hslot | hlarge
  · obtain ⟨b, hb, hspan⟩ := List.mem_flatMap.1 hslot
    exact ⟨b.span, List.mem_append_left _ (List.mem_flatMap.2 ⟨b, hb, List.mem_singleton_self _⟩),
      Bucket.places_in_span hspan⟩
  · exact ⟨place, List.mem_append_right _ hlarge, .refl _⟩

theorem fits_span (h : Quartered holds wide rooms g b) (hr : room ∈ rooms) :
    ∃ span ∈ g.spans wide, room.Inside span := by
  obtain ⟨place, hplace, hfit⟩ := h.rooms.fits hr
  obtain ⟨span, hspan, hin⟩ := inside hplace
  exact ⟨span, hspan, hfit.inside.trans hin⟩

theorem apart (hB : Spacious B holds) (h : Quartered holds wide rooms g b) :
    (g.quarters wide).Pairwise Slice.Disjoint := by
  have hd := hB.apart h.backed
  rw [spans, parts, ← List.map_eq_flatMap] at hd
  exact places_apart_of hd fun _ _ _ hp => Bucket.places_in_span hp

theorem eq_of_addr (hB : Spacious B holds) (h : Quartered holds wide rooms g b)
    (hp : place ∈ g.quarters wide) (hr : room ∈ g.quarters wide) (haddr : place.addr = room.addr) :
    place = room := by
  have hsound := h.sound.large wide
  have hnodup := addrs_nodup_of_apart (h.apart hB) fun _ hp => hsound.place_pos h.nonempty hp
  exact List.inj_on_of_nodup_map hnodup hp hr haddr

/-- Without a quarter that starts where a room does, there is still one for each other room. -/
theorem without (hB : Spacious B holds) (h : Quartered holds wide (room :: rooms) g b)
    (haddr : place.addr = room.addr) (hp : (g.quarters wide).Perm (place :: rest)) :
    Covered rooms rest := by
  obtain ⟨own, hmem, hfit, hothers⟩ := h.rooms.uncons
  have hplace : place ∈ g.quarters wide := hp.mem_iff.2 List.mem_cons_self
  obtain rfl : place = own := h.eq_of_addr hB hplace hmem (haddr.trans hfit.1)
  exact hothers rest hp

/-! ### Requests -/

/-- Putting up a bucket, or finding one, hands nothing out. -/
theorem roomed (hB : Spacious B holds) (h : Quartered holds wide rooms s.1.1 s.1.2)
    {found : Except AllocError Nat} (hr : Roomed B c s found t) :
    Quartered holds wide rooms t.1.1 t.1.2 := by
  cases hr with
  | found _ _ => exact h
  | refused hcall => exact { h with backed := hB.refuse (s := (s.1.2, s.2)) h.backed hcall }
  | @created bs storage u es occupied hc hcall hocc =>
    have hwide : ({ s.1.1 with large := wide } : GeneralPurpose).classes.toList[c]? = some bs := hc
    have hspans := parts_append (fun b => [b.span]) hwide
      (.new storage (2 ^ c) (s.1.1.bucketSize / 2 ^ c)) occupied
    have hplaces := parts_append Bucket.places hwide
      (.new storage (2 ^ c) (s.1.1.bucketSize / 2 ^ c)) occupied
    rw [Bucket.places_new, List.nil_append] at hplaces
    exact ⟨h.sound.append hc (Bucket.sound_new _ _ _) hocc, h.large, h.nonempty,
      hB.perm hspans.symm (hB.grant (s := (s.1.2, s.2)) h.backed hcall),
      h.rooms.mono hplaces.symm.subperm⟩

theorem allocSmall (hB : Spacious B holds) (h : Quartered holds wide rooms s.1.1 s.1.2)
    (hclass : s.1.1.sizeClass size align = .ok (some c))
    (ha : GeneralPurpose.allocSmall B c size s = .ok (r, t)) :
    (∃ e, r = .error e ∧ Quartered holds wide rooms t.1.1 t.1.2) ∨
      ∃ block, r = .ok block ∧ Quartered holds wide (block.widened size :: rooms) t.1.1 t.1.2 := by
  rcases allocSmall_ok ha with ⟨e, found, rfl, hroom⟩ |
    ⟨index, u, bs, b, addr, b', es, hroom, hc, hi, htake, rfl, rfl⟩
  · exact .inl ⟨e, rfl, h.roomed hB hroom⟩
  have hk := h.roomed hB hroom
  have hbucket := (hk.sound.mem_bucket hc hi).1
  obtain ⟨hsound, slot, _, _, rfl, hplaces⟩ := Bucket.takeSlot_ok hbucket htake
  have hwide : ({ u.1.1 with large := wide } : GeneralPurpose).classes.toList[c]? = some bs := hc
  obtain ⟨rest, hrest, hrest', _⟩ := parts_at (fun b => [b.span]) hwide hi
  obtain ⟨others, hall, hset, _⟩ := parts_at Bucket.places hwide hi
  have hfits : (Slice.widened ⟨(b.place slot).addr, size⟩ size).Fits (b.place slot) := by
    refine ⟨rfl, ?_⟩
    simp only [Slice.widened, Nat.max_self, Bucket.place, hbucket.objSize]
    exact (sizeClass_eq_some hclass).1
  refine .inr ⟨_, rfl, hk.sound.set hc hi hsound, hk.large, hk.nonempty, ?_, ?_⟩
  · have hsame := hrest' b'
    rw [(Bucket.takeSlot_shape htake).span] at hsame
    exact hB.perm (hrest.trans hsame.symm) hk.backed
  · refine (hk.rooms.cons hfits).mono (List.Perm.subperm ?_)
    exact ((hall.cons _).trans (hplaces.symm.append_right others)).trans (hset b').symm

theorem alloc (hB : Spacious B holds) (h : Quartered holds wide rooms s.1.1 s.1.2)
    (ha : GeneralPurpose.alloc B size align s = .ok (r, t)) :
    (∃ e, r = .error e ∧ Quartered holds wide rooms t.1.1 t.1.2) ∨
      ∃ block wide', r = .ok block ∧
        Quartered holds wide' (block.widened size :: rooms) t.1.1 t.1.2 := by
  rcases alloc_ok ha with ⟨e, rfl, rfl⟩ | ⟨hs, _, ⟨c, hclass, hsmall⟩ | hlarge⟩
  · exact .inl ⟨e, rfl, h⟩
  · rcases h.allocSmall hB hclass hsmall with hrefused | ⟨block, rfl, hk⟩
    · exact .inl hrefused
    · exact .inr ⟨block, wide, rfl, hk⟩
  · obtain ⟨u, ⟨e, rfl, hcall, rfl⟩ | ⟨block, es, rfl, hcall, rfl⟩⟩ := allocLarge_ok hlarge
    · exact .inl ⟨e, rfl, { h with backed := hB.refuse (s := (s.1.2, s.2)) h.backed hcall }⟩
    · have hfits := block.fits_widened size
      have hlarge' := (h.large.cons hfits).perm (List.perm_append_singleton _ _).symm
      refine .inr ⟨block, block.widened size :: wide, rfl, h.sound.large _, hlarge', ?_, ?_, ?_⟩
      · refine List.forall_mem_cons.2 ⟨?_, h.nonempty⟩
        exact Nat.lt_of_lt_of_le hs (Nat.le_max_left _ _)
      · exact hB.perm List.perm_middle.symm (hB.grant (s := (s.1.2, s.2)) h.backed hcall)
      · exact (h.rooms.cons (.refl _)).mono List.perm_middle.symm.subperm

/-! ### Frees -/

/-- Giving a slot back takes its room away, and no other. -/
theorem released (hB : Spacious B holds) (h : Quartered holds wide (room :: rooms) s.1.1 s.1.2)
    (hspan : s.1.1.Spans (.slot c i k) place) (haddr : place.addr = room.addr)
    (hr : Released B c i k s t) : Quartered holds wide rooms t.1.1 t.1.2 := by
  obtain ⟨bs, b, hc, hi, hk, rfl⟩ := hspan
  have hbucket := (h.sound.mem_bucket hc hi).1
  have hwide : ({ s.1.1 with large := wide } : GeneralPurpose).classes.toList[c]? = some bs := hc
  obtain ⟨rest, hrest, hrest', hgone⟩ := parts_at (fun b => [b.span]) hwide hi
  obtain ⟨others, hall, hset, herase⟩ := parts_at Bucket.places hwide hi
  cases hr with
  | @kept bs' b₁ b' es hc' hi' hslot _ =>
    obtain rfl : bs = bs' := Option.some.inj (hc.symm.trans hc')
    obtain rfl : b = b₁ := Option.some.inj (hi.symm.trans hi')
    obtain ⟨hsound, hplaces⟩ := Bucket.releaseSlot_ok hbucket hk hslot
    have hsame := hrest' b'
    rw [(Bucket.releaseSlot_shape hslot).span] at hsame
    have hsplit := hall.trans (hplaces.append_right others)
    exact ⟨h.sound.set hc hi hsound, h.large, h.nonempty, hB.perm (hrest.trans hsame.symm) h.backed,
      (h.without hB haddr hsplit).mono (hset b').symm.subperm⟩
  | @emptied bs' b₁ b' occupied es u hc' hi' hslot hzero hocc hfree =>
    obtain rfl : bs = bs' := Option.some.inj (hc.symm.trans hc')
    obtain rfl : b = b₁ := Option.some.inj (hi.symm.trans hi')
    obtain ⟨hsound, hplaces⟩ := Bucket.releaseSlot_ok hbucket hk hslot
    rw [hsound.places_eq_nil hzero] at hplaces
    have hsplit := hall.trans (hplaces.append_right others)
    have hback := hB.release (s := (s.1.2, s.2.report es)) (hB.perm hrest h.backed)
      (b.storage.fits_widened _) hfree
    exact ⟨h.sound.eraseIdx hc hi hocc, h.large, h.nonempty, hB.perm (hgone occupied).symm hback,
      (h.without hB haddr hsplit).mono (herase occupied).symm.subperm⟩

/-- A block that is given back takes its room with it; so does one that is not found again, but its
slot stays taken. -/
theorem free (hB : Spacious B holds) (h : Quartered holds wide (room :: rooms) s.1.1 s.1.2)
    (hfits : mem.Fits room) (hf : GeneralPurpose.free B mem s = .ok ((), t)) :
    ∃ wide', Quartered holds wide' rooms t.1.1 t.1.2 := by
  have htail : Quartered holds wide rooms s.1.1 s.1.2 := { h with rooms := h.rooms.tail }
  cases free_ok hf with
  | null _ => exact ⟨wide, htail⟩
  | unknown _ _ => exact ⟨wide, htail⟩
  | slot _ howner hrel =>
    obtain ⟨place, hspan, haddr⟩ := owner_spans h.sound howner
    exact ⟨wide, h.released hB hspan (haddr.trans hfits.1) hrel⟩
  | @large i entry es u _ howner hi hfree =>
    have hgone := (swapRemove_perm hi)
    obtain ⟨own, hmem, hfit, hothers⟩ := (h.large.perm hgone).uncons
    have hp := List.perm_cons_erase hmem
    have haddr : own.addr = room.addr :=
      (hfit.1.symm.trans (owner_large_addr howner hi)).trans hfits.1
    have hsplit := fun kept : List Slice => (hp.append_left kept).trans List.perm_middle
    refine ⟨wide.erase own, h.sound.large _, hothers _ hp, ?_, ?_, h.without hB haddr (hsplit _)⟩
    · exact fun room hroom => h.nonempty room (List.mem_of_mem_erase hroom)
    · exact hB.release (s := (s.1.2, s.2.report es)) (hB.perm (hsplit _) h.backed) hfit
        hfree

/-! ### Resizes -/

/-- The room of a block can be taken for another one that starts there, and ends in the same
quarter. -/
theorem trade (hB : Spacious B holds) (h : Quartered holds wide (room :: rooms) g b)
    (hp : place ∈ g.quarters wide) (haddr : place.addr = room.addr) (hfits : block.Fits place) :
    Quartered holds wide (block :: rooms) g b := by
  have hsplit := List.perm_cons_erase hp
  have hrest := h.without hB haddr hsplit
  exact { h with rooms := (hrest.cons hfits).mono hsplit.symm.subperm }

/-- A block that was resized has a room of its own. -/
theorem adjust (hB : Spacious B holds) (h : Quartered holds wide (room :: rooms) s.1.1 s.1.2)
    (hfits : mem.Fits room) (hn : mem.isNull = false) (hs : size ≠ 0)
    (ha : GeneralPurpose.adjust B mem size align s = .ok (.ok block, t)) :
    ∃ wide', Quartered holds wide' (block.widened size :: rooms) t.1.1 t.1.2 := by
  generalize hr : (Except.ok block : Answer) = r at ha
  cases adjust_ok ha with
  | unknown => cases hr
  | refused _ _ _ => cases hr
  | @inSlot c i k es howner hclass =>
    cases hr
    obtain ⟨place, hspan, haddr⟩ := owner_spans h.sound howner
    obtain ⟨bs, b, hc, hi, hk, rfl⟩ := hspan
    have hbucket := (h.sound.mem_bucket hc hi).1
    have hplace : b.place k ∈ s.1.1.quarters wide :=
      List.mem_append_left _ (List.mem_flatMap.2 ⟨b, mem_buckets.2 ⟨c, i, bs, hc, hi⟩,
        Bucket.mem_places.2 ⟨k, hk, rfl⟩⟩)
    refine ⟨wide, h.trade hB hplace (haddr.trans hfits.1) ⟨haddr.symm, ?_⟩⟩
    simp only [Slice.widened, Nat.max_self, Bucket.place, hbucket.objSize]
    exact (sizeClass_eq_some hclass).1
  | moved _ hreloc =>
    rcases relocate_ok hreloc with ⟨_, rfl, _⟩ | ⟨fresh, u, rfl, halloc, hfree⟩
    · cases hr
    · cases hr
      rcases h.alloc hB halloc with ⟨_, hbad, _⟩ | ⟨_, wide', heq, hk⟩
      · cases hbad
      · cases heq
        have hboth : Quartered holds wide' (room :: block.widened size :: rooms) u.1.1 u.1.2 :=
          { hk with rooms := hk.rooms.perm (.swap _ _ _) }
        exact hboth.free (s := (u.1, u.2.mapMemory (·.copyCommon mem block))) hB hfits hfree
  | @behind i entry resized u es howner hi hcall =>
    cases hr
    have hnull := owner_large_isNull howner hi hn
    have hfound := owner_large_addr howner hi
    obtain ⟨hlt, rfl⟩ := List.getElem?_eq_some_iff.1 hi
    have hset := List.set_perm_cons_eraseIdx hlt block
    have hgone := (List.getElem_cons_eraseIdx_perm hlt).symm
    obtain ⟨own, hmem, hfit, hothers⟩ := (h.large.perm hgone).uncons
    have hp := List.perm_cons_erase hmem
    have haddr : own.addr = room.addr := (hfit.1.symm.trans hfound).trans hfits.1
    have hsplit := fun kept : List Slice => (hp.append_left kept).trans List.perm_middle
    have hback := hB.regrant (s := (s.1.2, s.2)) (hB.perm (hsplit _) h.backed) hfit hnull hs hcall
    refine ⟨block.widened size :: wide.erase own, h.sound.large _, ?_, ?_, ?_, ?_⟩
    · exact ((hothers _ hp).cons (block.fits_widened size)).perm hset.symm
    · refine List.forall_mem_cons.2 ⟨Nat.lt_of_lt_of_le (Nat.pos_of_ne_zero hs) ?_, ?_⟩
      · exact Nat.le_max_left _ _
      · exact fun room hroom => h.nonempty room (List.mem_of_mem_erase hroom)
    · exact hB.perm List.perm_middle.symm hback
    · refine ((h.without hB haddr (hsplit _)).cons (.refl _)).mono ?_
      exact List.perm_middle.symm.subperm

theorem adjust_refused (hB : Spacious B holds) (h : Quartered holds wide rooms s.1.1 s.1.2)
    (hn : mem.isNull = false) (hs : size ≠ 0) {e : AllocError}
    (ha : GeneralPurpose.adjust B mem size align s = .ok (.error e, t)) :
    Quartered holds wide rooms t.1.1 t.1.2 := by
  generalize hr : (Except.error e : Answer) = r at ha
  cases adjust_ok ha with
  | unknown => exact h
  | inSlot _ _ => cases hr
  | behind _ _ _ => cases hr
  | moved _ hreloc =>
    rcases relocate_ok hreloc with ⟨_, rfl, halloc⟩ | ⟨_, _, rfl, _⟩
    · rcases h.alloc hB halloc with ⟨_, _, hk⟩ | ⟨_, _, hbad, _⟩
      · exact hk
      · cases hbad
    · cases hr
  | refused howner hi hcall =>
    have hnull := owner_large_isNull howner hi hn
    exact { h with backed := hB.retain (s := (s.1.2, s.2)) h.backed hnull hs hcall }

theorem bare (hsound : g.Sound) (hbuckets : g.buckets = []) (hlarge : g.large = [])
    (h : holds [] b) : Quartered holds [] [] g b := by
  refine ⟨hsound, ?_, by simp, ?_, .nil _⟩
  · rw [hlarge]
    exact .nil _
  · have hspans : g.spans [] = [] := by
      simp only [spans, parts, List.append_nil]
      change g.buckets.flatMap _ = []
      rw [hbuckets, List.flatMap_nil]
    rw [hspans]
    exact h

/-- Giving everything back takes all rooms away. -/
theorem destroy (hB : Spacious B holds) (h : Quartered holds wide rooms s.1.1 s.1.2)
    (hd : GeneralPurpose.destroy B s = .ok ((), t)) : Quartered holds [] [] t.1.1 t.1.2 := by
  simp only [GeneralPurpose.destroy, Act.bind_ok, Act.own_ok, Act.setOwn_ok, Act.below_ok] at hd
  obtain ⟨_, _, ⟨rfl, rfl⟩, _, _, rfl, _, _, ⟨u, hsmall, rfl⟩, _, _, ⟨v, hlarge, rfl⟩, hd⟩ := hd
  obtain ⟨own, hfits, kept, hkept, hsub⟩ := h.large
  obtain ⟨lost, hlost⟩ := hsub.exists_perm_append
  have hstorages : List.Forall₂ Slice.Fits (s.1.1.buckets.map (·.storage))
      (s.1.1.buckets.flatMap fun b => [b.span]) := by
    rw [← List.map_eq_flatMap, List.forall₂_map_left_iff, List.forall₂_map_right_iff]
    exact List.forall₂_same.2 fun b _ => b.storage.fits_widened _
  have hrest := hB.freeAll (s := (s.1.2, s.2)) hstorages h.backed hsmall
  have hend := hB.freeAll hfits (hB.perm (hlost.trans (hkept.append_right lost)) hrest) hlarge
  have hnew := bare (.cleared s.1.1) (buckets_new 0) rfl (hB.empty hend)
  split at hd
  · rw [Act.emit_ok] at hd
    subst hd
    exact hnew
  · obtain ⟨_, rfl⟩ := Act.pure_ok.1 hd
    exact hnew

end Quartered

/-! ### The memory -/

theorem Roomed.memory (hB : B.Discreet) {found : Except AllocError Nat}
    (h : Roomed B c s found t) : t.2.memory = s.2.memory := by
  cases h with
  | found _ _ => rfl
  | refused hcall => exact hB.alloc_memory hcall
  | created _ hcall _ => exact hB.alloc_memory hcall

theorem alloc_memory (hB : B.Discreet)
    (ha : GeneralPurpose.alloc B size align s = .ok (r, t)) : t.2.memory = s.2.memory := by
  rcases alloc_ok ha with ⟨_, _, rfl⟩ | ⟨_, _, ⟨c, _, hsmall⟩ | hlarge⟩
  · rfl
  · rcases allocSmall_ok hsmall with
      ⟨_, _, _, hroom⟩ | ⟨_, u, _, _, _, _, _, hroom, _, _, _, _, rfl⟩
    · exact hroom.memory hB
    · exact (hroom.memory hB :)
  · obtain ⟨u, ⟨_, _, hcall, rfl⟩ | ⟨_, _, _, hcall, rfl⟩⟩ := allocLarge_ok hlarge
    · exact hB.alloc_memory hcall
    · exact hB.alloc_memory hcall

theorem free_memory (hB : B.Discreet) (hf : GeneralPurpose.free B mem s = .ok ((), t)) :
    t.2.memory = s.2.memory := by
  cases free_ok hf with
  | null _ => rfl
  | unknown _ _ => rfl
  | slot _ _ hrel =>
    cases hrel with
    | kept _ _ _ _ => rfl
    | emptied _ _ _ _ _ hfree => exact hB.free_memory hfree
  | large _ _ _ hfree => exact hB.free_memory hfree

/-- Only a block that is moved is written. -/
theorem adjust_memory (hB : B.Discreet) (hn : mem.isNull = false) (hs : size ≠ 0)
    (ha : GeneralPurpose.adjust B mem size align s = .ok (r, t)) :
    (∀ block, r = .ok block → WrittenIn [block] s.2.memory t.2.memory) ∧
      ∀ e, r = .error e → t.2.memory = s.2.memory := by
  cases adjust_ok ha with
  | unknown => exact ⟨by simp, fun _ _ => rfl⟩
  | inSlot _ _ => exact ⟨fun _ _ => .refl _ _, by simp⟩
  | moved _ hreloc =>
    rcases relocate_ok hreloc with ⟨_, rfl, halloc⟩ | ⟨fresh, u, rfl, halloc, hfree⟩
    · exact ⟨by simp, fun _ _ => alloc_memory hB halloc⟩
    · refine ⟨fun _ heq => ?_, by simp⟩
      cases heq
      rw [free_memory hB hfree, ← alloc_memory hB halloc]
      exact writtenIn_copyCommon _ _ _
  | refused howner hi hcall =>
    have hnull := owner_large_isNull howner hi hn
    exact ⟨by simp, fun _ _ => hB.refused_memory hnull hs hcall⟩
  | behind howner hi hcall =>
    refine ⟨fun _ heq => ?_, by simp⟩
    cases heq
    exact hB.resize_memory (owner_large_isNull howner hi hn) hs hcall

theorem discreet (hB : B.Discreet) : (allocator B).Discreet where
  alloc_memory := alloc_memory hB
  free_memory := free_memory hB
  resize_memory hn hs hr := by
    rcases resizeBy_ok hn hs hr with ⟨_, hbad, _⟩ | ⟨_, ha⟩
    · cases hbad
    · exact (adjust_memory hB hn hs ha).1 _ rfl
  refused_memory hn hs hr := by
    rcases resizeBy_ok hn hs hr with ⟨_, _, rfl⟩ | ⟨_, ha⟩
    · rfl
    · exact (adjust_memory hB hn hs ha).2 _ rfl
  resize_null := (orderly B).resize_null
  resize_zero := (orderly B).resize_zero

/-- A general-purpose allocator has rooms if the allocator behind it has. -/
theorem spacious (hB : Spacious B holds) :
    Spacious (allocator B) (Housed holds) where
  toBlind := blind hB.toBlind
  toDiscreet := discreet hB.toDiscreet
  perm hp := fun ⟨wide, h⟩ => ⟨wide, { h with rooms := h.rooms.perm hp }⟩
  drop := fun ⟨wide, h⟩ => ⟨wide, { h with rooms := h.rooms.tail }⟩
  apart := fun ⟨_, h⟩ => h.rooms.apart (h.apart hB)
  bounded := by
    rintro rooms s ⟨wide, h⟩ room hmem
    obtain ⟨span, hspan, hin⟩ := h.fits_span hmem
    exact Nat.lt_of_le_of_lt hin.2 (hB.bounded h.backed span hspan)
  nonnull := by
    rintro rooms s ⟨wide, h⟩ room hmem
    obtain ⟨span, hspan, hin⟩ := h.fits_span hmem
    have hne := hB.nonnull h.backed span hspan
    have hlow := hin.1
    omega
  grant := by
    rintro rooms s size align block t ⟨wide, h⟩ ha
    rcases h.alloc hB ha with ⟨_, hbad, _⟩ | ⟨_, wide', heq, hk⟩
    · cases hbad
    · cases heq
      exact ⟨wide', hk⟩
  refuse := by
    rintro rooms s size align e t ⟨wide, h⟩ ha
    rcases h.alloc hB ha with ⟨_, _, hk⟩ | ⟨_, _, hbad, _⟩
    · exact ⟨wide, hk⟩
    · cases hbad
  regrant := by
    rintro room rooms s old size align block t ⟨wide, h⟩ hfits hn hs hr
    rcases resizeBy_ok hn hs hr with ⟨_, hbad, _⟩ | ⟨_, ha⟩
    · cases hbad
    · exact h.adjust hB hfits hn hs ha
  retain := by
    rintro rooms s old size align e t ⟨wide, h⟩ hn hs hr
    rcases resizeBy_ok hn hs hr with ⟨_, _, rfl⟩ | ⟨_, ha⟩
    · exact ⟨wide, h⟩
    · exact ⟨wide, h.adjust_refused hB hn hs ha⟩
  release := fun ⟨_, h⟩ hfits hf => h.free hB hfits hf
  pass := by
    rintro rooms s block t ⟨wide, h⟩ hn hf
    rw [((orderly B).free_null hn hf).1]
    exact ⟨wide, h⟩

end GeneralPurpose
end AllocChain
