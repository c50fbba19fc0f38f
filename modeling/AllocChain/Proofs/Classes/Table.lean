import Mathlib.Data.List.Perm.Basic
import Mathlib.Data.List.Pairwise
import AllocChain.Classes.GeneralPurpose
import AllocChain.Proofs.Bits.BitSet
import AllocChain.Proofs.Classes.Bucket

/-!
The table of a general-purpose allocator: buckets by class, and the list of large blocks. `held`
lists the memory that the table stands on, and `places` what can be handed out of it and is: taken
slots and large blocks. An owner names a place by its position (`Spans`); two positions never
overlap (`Spans.disjoint`), and looking an address up finds the position that starts there
(`owner_spans`, `owner_none`).
-/

namespace AllocChain

theorem elementAt_ok {α : Type} {l : List α} {i : Nat} {a : α} :
    elementAt l i = .ok a ↔ l[i]? = some a := by
  simp only [elementAt]
  cases l[i]? <;> simp

/-- One element is taken out, whatever takes its place. -/
theorem swapRemove_perm {α : Type} {l : List α} {i : Nat} {a : α} (h : l[i]? = some a) :
    l.Perm (a :: swapRemove l i) := by
  obtain ⟨hi, rfl⟩ := List.getElem?_eq_some_iff.1 h
  rcases List.eq_nil_or_concat l with rfl | ⟨front, last, rfl⟩
  · simp at hi
  simp only [swapRemove]
  simp only [List.concat_eq_append, List.getLast?_concat, List.length_append, List.length_cons,
    List.length_nil, List.dropLast_concat] at hi ⊢
  by_cases hlast : i + 1 = front.length + (0 + 1)
  · have hi' : i = front.length := by omega
    subst hi'
    simp only [if_true, List.getElem_concat_length]
    exact List.perm_append_singleton _ _
  · have hlt : i < front.length := by omega
    rw [if_neg hlast, List.getElem_append_left hlt]
    have hset := List.set_perm_cons_eraseIdx hlt last
    have hget := List.getElem_cons_eraseIdx_perm hlt
    calc (front ++ [last]).Perm (last :: front) := List.perm_append_singleton _ _
      _ |>.Perm (last :: front[i] :: front.eraseIdx i) := hget.symm.cons last
      _ |>.Perm (front[i] :: last :: front.eraseIdx i) := .swap _ _ _
      _ |>.Perm (front[i] :: front.set i last) := hset.symm.cons _

namespace GeneralPurpose

/-- All buckets, class after class. -/
def buckets (g : GeneralPurpose) : List Bucket := g.classes.toList.flatten

/-- The blocks of the allocator behind that the table stands on. -/
def held (g : GeneralPurpose) : List Slice := g.buckets.map (·.storage) ++ g.large

/-- The taken slots and the large blocks. -/
def places (g : GeneralPurpose) : List Slice := g.buckets.flatMap Bucket.places ++ g.large

/-- What the owner names: a slot whose bit is set, or an entry of the list of large blocks. -/
def Spans (g : GeneralPurpose) : Owner → Slice → Prop
  | .slot c i k, span => ∃ bs b, g.classes.toList[c]? = some bs ∧ bs[i]? = some b ∧
    b.slots.get k = true ∧ b.place k = span
  | .large i, span => g.large[i]? = some span

/-- Every bucket is one of its class, and the set of occupied classes is exact. -/
structure Sound (g : GeneralPurpose) : Prop where
  buckets {c : Nat} {bs : List Bucket} : g.classes.toList[c]? = some bs → ∀ b ∈ bs, b.Sound c
  occupied {c : Nat} : g.occupied.test c = true ↔ ∃ bs, g.classes.toList[c]? = some bs ∧ bs ≠ []

/-- What is held lies apart, and each bucket has room for its slots. -/
structure Spread (g : GeneralPurpose) : Prop where
  apart : g.held.Pairwise Slice.Disjoint
  roomy : ∀ b ∈ g.buckets, b.Roomy
  nonempty : ∀ mem ∈ g.large, 0 < mem.len

variable {g : GeneralPurpose} {c i k addr : Nat} {bs new : List Bucket} {b b' : Bucket}
  {o o' : Owner} {span span' : Slice}

theorem bucketsOf_ok : g.bucketsOf c = .ok bs ↔ g.classes.toList[c]? = some bs := by
  simp only [bucketsOf]
  by_cases h : c < classCount
  · simp [h]
  · simp [h]

theorem mem_buckets : b ∈ g.buckets ↔
    ∃ (c i : Nat) (bs : List Bucket), g.classes.toList[c]? = some bs ∧ bs[i]? = some b := by
  rw [buckets, List.mem_flatten]
  constructor
  · rintro ⟨bs, hbs, hb⟩
    obtain ⟨c, hc⟩ := List.mem_iff_getElem?.1 hbs
    obtain ⟨i, hi⟩ := List.mem_iff_getElem?.1 hb
    exact ⟨c, i, bs, hc, hi⟩
  · rintro ⟨c, i, bs, hc, hi⟩
    exact ⟨bs, List.mem_of_getElem? hc, List.mem_of_getElem? hi⟩

theorem Sound.bucket (h : g.Sound) (hb : b ∈ g.buckets) : ∃ c, b.Sound c := by
  obtain ⟨c, i, bs, hc, hi⟩ := mem_buckets.1 hb
  exact ⟨c, h.buckets hc b (List.mem_of_getElem? hi)⟩

theorem mem_places : span ∈ g.places ↔ ∃ o, g.Spans o span := by
  rw [places, List.mem_append, List.mem_flatMap]
  constructor
  · rintro (⟨b, hb, hspan⟩ | hlarge)
    · obtain ⟨c, i, bs, hc, hi⟩ := mem_buckets.1 hb
      obtain ⟨k, hk, hplace⟩ := Bucket.mem_places.1 hspan
      exact ⟨.slot c i k, bs, b, hc, hi, hk, hplace⟩
    · obtain ⟨i, hi⟩ := List.mem_iff_getElem?.1 hlarge
      exact ⟨.large i, hi⟩
  · rintro ⟨o, ho⟩
    cases o with
    | slot c i k =>
      obtain ⟨bs, b, hc, hi, hk, hplace⟩ := ho
      exact .inl ⟨b, mem_buckets.2 ⟨c, i, bs, hc, hi⟩, Bucket.mem_places.2 ⟨k, hk, hplace⟩⟩
    | large i => exact .inr (List.mem_of_getElem? ho)

/-! ### Places lie apart -/

theorem Spread.inside (h : g.Spread) (hp : span ∈ g.places) : ∃ mem ∈ g.held, span.Inside mem := by
  rcases List.mem_append.1 hp with hslot | hlarge
  · obtain ⟨b, hb, hspan⟩ := List.mem_flatMap.1 hslot
    exact ⟨b.storage, List.mem_append_left _ (List.mem_map_of_mem hb),
      (h.roomy b hb).places_inside hspan⟩
  · exact ⟨span, List.mem_append_right _ hlarge, .refl _⟩

theorem Sound.place_pos (hs : g.Sound) (hlarge : ∀ mem ∈ g.large, 0 < mem.len)
    (hp : span ∈ g.places) : 0 < span.len := by
  rcases List.mem_append.1 hp with hslot | hmem
  · obtain ⟨b, hb, hspan⟩ := List.mem_flatMap.1 hslot
    obtain ⟨k, _, rfl⟩ := Bucket.mem_places.1 hspan
    obtain ⟨c, hsound⟩ := hs.bucket hb
    exact hsound.objSize_pos
  · exact hlarge span hmem

theorem Spread.pos (h : g.Spread) (hs : g.Sound) (hp : span ∈ g.places) : 0 < span.len :=
  hs.place_pos h.nonempty hp

/-- Places lie apart if something lies apart that each bucket has its slots in, and the large
blocks. -/
theorem places_apart_of {f : Bucket → Slice}
    (hd : (g.buckets.map f ++ g.large).Pairwise Slice.Disjoint)
    (hin : ∀ b ∈ g.buckets, ∀ place ∈ b.places, place.Inside (f b)) :
    g.places.Pairwise Slice.Disjoint := by
  obtain ⟨hrows, hlarge, hcross⟩ := List.pairwise_append.1 hd
  refine List.pairwise_append.2
    ⟨List.pairwise_flatMap.2 ⟨fun b _ => b.places_apart, ?_⟩, hlarge, ?_⟩
  · refine (List.pairwise_map.1 hrows).imp_of_mem fun {b b'} hb hb' hd x hx y hy => ?_
    exact hd.mono (hin b hb x hx) (hin b' hb' y hy)
  · intro x hx y hy
    obtain ⟨b, hb, hspan⟩ := List.mem_flatMap.1 hx
    exact (hcross (f b) (List.mem_map_of_mem hb) y hy).mono (hin b hb x hspan) (.refl y)

theorem Spread.places_apart (h : g.Spread) : g.places.Pairwise Slice.Disjoint :=
  places_apart_of h.apart fun b hb _ hp => (h.roomy b hb).places_inside hp

theorem addrs_nodup_of_apart {slices : List Slice} (hd : slices.Pairwise Slice.Disjoint)
    (hpos : ∀ slice ∈ slices, 0 < slice.len) : (slices.map (·.addr)).Nodup := by
  refine List.pairwise_map.2 (hd.imp_of_mem fun {x y} hx hy hd heq => ?_)
  refine hd x.addr (Slice.has_addr (hpos x hx)) ?_
  rw [heq]
  exact Slice.has_addr (hpos y hy)

theorem Spread.addrs_nodup (h : g.Spread) (hs : g.Sound) : (g.places.map (·.addr)).Nodup :=
  addrs_nodup_of_apart h.places_apart fun _ hp => h.pos hs hp

theorem disjoint_of_getElem? {l : List Slice} {j : Nat} (h : l.Pairwise Slice.Disjoint)
    (hi : l[i]? = some span) (hj : l[j]? = some span') (hne : i ≠ j) : span.Disjoint span' := by
  obtain ⟨hlti, rfl⟩ := List.getElem?_eq_some_iff.1 hi
  obtain ⟨hltj, rfl⟩ := List.getElem?_eq_some_iff.1 hj
  rcases Nat.lt_or_gt_of_ne hne with hlt | hgt
  · exact List.pairwise_iff_getElem.1 h i j hlti hltj hlt
  · exact (List.pairwise_iff_getElem.1 h j i hltj hlti hgt).symm

/-- The storages of buckets at different positions lie apart, if all that is held does. -/
theorem storage_disjoint_of_apart (h : g.held.Pairwise Slice.Disjoint) {c' i' : Nat}
    {bs' : List Bucket} (hc : g.classes.toList[c]? = some bs) (hi : bs[i]? = some b)
    (hc' : g.classes.toList[c']? = some bs') (hi' : bs'[i']? = some b')
    (hne : ¬ (c = c' ∧ i = i')) : b.storage.Disjoint b'.storage := by
  have hstorages := List.pairwise_map.1 (List.pairwise_append.1 h).1
  obtain ⟨hrow, hrows⟩ := List.pairwise_flatten.1 hstorages
  have hb := List.mem_of_getElem? hi
  have hb' := List.mem_of_getElem? hi'
  by_cases hcc : c = c'
  · subst hcc
    obtain rfl : bs = bs' := Option.some.inj (hc.symm.trans hc')
    have hapart := List.pairwise_map.2 (hrow bs (List.mem_of_getElem? hc))
    refine disjoint_of_getElem? (i := i) (j := i') hapart ?_ ?_ fun hii => hne ⟨rfl, hii⟩
    · rw [List.getElem?_map, hi]
      rfl
    · rw [List.getElem?_map, hi']
      rfl
  · obtain ⟨hlc, rfl⟩ := List.getElem?_eq_some_iff.1 hc
    obtain ⟨hlc', rfl⟩ := List.getElem?_eq_some_iff.1 hc'
    rcases Nat.lt_or_gt_of_ne hcc with hlt | hgt
    · exact List.pairwise_iff_getElem.1 hrows c c' hlc hlc' hlt b hb b' hb'
    · exact (List.pairwise_iff_getElem.1 hrows c' c hlc' hlc hgt b' hb' b hb).symm

theorem Spread.storage_disjoint (h : g.Spread) {c' i' : Nat} {bs' : List Bucket}
    (hc : g.classes.toList[c]? = some bs) (hi : bs[i]? = some b)
    (hc' : g.classes.toList[c']? = some bs') (hi' : bs'[i']? = some b')
    (hne : ¬ (c = c' ∧ i = i')) : b.storage.Disjoint b'.storage :=
  storage_disjoint_of_apart h.apart hc hi hc' hi' hne

/-- What different owners span does not overlap. -/
theorem Spans.disjoint (h : g.Spread) (ho : g.Spans o span) (ho' : g.Spans o' span')
    (hne : o ≠ o') : span.Disjoint span' := by
  obtain ⟨_, hlarge, hcross⟩ := List.pairwise_append.1 h.apart
  cases o with
  | slot c i k =>
    obtain ⟨bs, b, hc, hi, hk, rfl⟩ := ho
    have hb := mem_buckets.2 ⟨c, i, bs, hc, hi⟩
    have hin := (h.roomy b hb).place_inside (Bitmap.lt_of_get hk)
    cases o' with
    | slot c' i' k' =>
      obtain ⟨bs', b', hc', hi', hk', rfl⟩ := ho'
      have hb' := mem_buckets.2 ⟨c', i', bs', hc', hi'⟩
      have hin' := (h.roomy b' hb').place_inside (Bitmap.lt_of_get hk')
      by_cases hci : c = c' ∧ i = i'
      · obtain ⟨rfl, rfl⟩ := hci
        obtain rfl : bs = bs' := Option.some.inj (hc.symm.trans hc')
        obtain rfl : b = b' := Option.some.inj (hi.symm.trans hi')
        exact Bucket.place_disjoint fun hkk => hne (by rw [hkk])
      · exact (h.storage_disjoint hc hi hc' hi' hci).mono hin hin'
    | large i' =>
      exact (hcross b.storage (List.mem_map_of_mem hb) span' (List.mem_of_getElem? ho')).mono hin
        (.refl _)
  | large i =>
    cases o' with
    | slot c' i' k' =>
      obtain ⟨bs', b', hc', hi', hk', rfl⟩ := ho'
      have hb' := mem_buckets.2 ⟨c', i', bs', hc', hi'⟩
      have hin' := (h.roomy b' hb').place_inside (Bitmap.lt_of_get hk')
      exact ((hcross b'.storage (List.mem_map_of_mem hb') span (List.mem_of_getElem? ho)).mono hin'
        (.refl _)).symm
    | large i' => exact disjoint_of_getElem? hlarge ho ho' fun hii => hne (by rw [hii])

theorem Spans.unique (ho : g.Spans o span) (ho' : g.Spans o span') : span = span' := by
  cases o with
  | slot c i k =>
    obtain ⟨bs, b, hc, hi, _, rfl⟩ := ho
    obtain ⟨bs', b', hc', hi', _, rfl⟩ := ho'
    obtain rfl : bs = bs' := Option.some.inj (hc.symm.trans hc')
    obtain rfl : b = b' := Option.some.inj (hi.symm.trans hi')
    rfl
  | large i => exact Option.some.inj (ho.symm.trans ho')

/-- Two owners whose places share an address are the same. -/
theorem Spans.eq_of_has (h : g.Spread) (ho : g.Spans o span) (ho' : g.Spans o' span')
    (hhas : span.Has addr) (hhas' : span'.Has addr) : o = o' := by
  by_contra hne
  exact ho.disjoint h ho' hne addr hhas hhas'

theorem Spans.slot_size (hs : g.Sound) (h : g.Spans (.slot c i k) span) : span.len = 2 ^ c := by
  obtain ⟨bs, b, hc, hi, _, rfl⟩ := h
  exact (hs.buckets hc b (List.mem_of_getElem? hi)).objSize

theorem Spans.slot_dvd (hs : g.Sound) (hp : g.Spread) (h : g.Spans (.slot c i k) span) :
    2 ^ c ∣ span.addr := by
  have hsize := h.slot_size hs
  obtain ⟨bs, b, hc, hi, _, rfl⟩ := h
  rw [← hsize]
  exact (hp.roomy b (mem_buckets.2 ⟨c, i, bs, hc, hi⟩)).dvd_place k

theorem Spans.split (h : g.Spans o span) : ∃ rest, g.places.Perm (span :: rest) := by
  obtain ⟨pre, post, hsplit⟩ := List.append_of_mem (mem_places.2 ⟨o, h⟩)
  refine ⟨pre ++ post, ?_⟩
  rw [hsplit]
  exact List.perm_middle

/-! ### Looking up an address -/

/-- The bucket that is found contains the address; if none is found, none of the classes looked
through has one. -/
theorem findBucket_ok {cs : List Nat} {found : Option (Nat × Nat × Bucket)}
    (h : g.findBucket addr cs = .ok found) :
    (∃ c i bs b, found = some (c, i, b) ∧ g.classes.toList[c]? = some bs ∧ bs[i]? = some b ∧
        b.storage.Has addr) ∨
      found = none ∧ ∀ c ∈ cs, ∀ bs, g.classes.toList[c]? = some bs →
        ∀ b ∈ bs, ¬ b.storage.Has addr := by
  induction cs with
  | nil => exact .inr ⟨Fault.pure_ok.1 h, by simp⟩
  | cons c cs ih =>
    rw [findBucket] at h
    obtain ⟨bs, hbs, h⟩ := Fault.bind_ok.1 h
    rw [bucketsOf_ok] at hbs
    obtain ⟨inside, hinside, h⟩ := Fault.bind_ok.1 h
    rcases Bucket.findContaining_ok hinside with ⟨i, b, rfl, hi, hhas⟩ | ⟨rfl, hnone⟩
    · rw [Nat.zero_add] at h
      exact .inl ⟨c, i, bs, b, Fault.pure_ok.1 h, hbs, hi, hhas⟩
    · rcases ih h with hfound | ⟨hfound, hall⟩
      · exact .inl hfound
      · refine .inr ⟨hfound, List.forall_mem_cons.2 ⟨?_, hall⟩⟩
        intro bs' hbs'
        obtain rfl : bs = bs' := Option.some.inj (hbs.symm.trans hbs')
        exact hnone

theorem findIdx?_addr {large : List Slice} (h : large.findIdx? (·.addr == addr) = some i) :
    ∃ mem, large[i]? = some mem ∧ mem.addr = addr := by
  obtain ⟨hi, haddr, _⟩ := List.findIdx?_eq_some_iff_getElem.1 h
  exact ⟨large[i], List.getElem?_eq_getElem hi, beq_iff_eq.1 haddr⟩

/-- A large owner names a block that starts at the address. -/
theorem owner_large (h : g.owner addr = .ok (some (.large i))) :
    ∃ mem, g.large[i]? = some mem ∧ mem.addr = addr := by
  simp only [owner] at h
  obtain ⟨found, _, h⟩ := Fault.bind_ok.1 h
  match found, h with
  | some (c, j, b), h =>
    obtain ⟨slot, _, h⟩ := Fault.bind_ok.1 h
    cases slot <;> cases Fault.pure_ok.1 h
  | none, h =>
    cases hlarge : g.large.findIdx? (·.addr == addr) with
    | none =>
      rw [hlarge] at h
      cases Fault.pure_ok.1 h
    | some j =>
      rw [hlarge] at h
      cases Fault.pure_ok.1 h
      exact findIdx?_addr hlarge

theorem owner_large_addr {mem : Slice} (h : g.owner addr = .ok (some (.large i)))
    (hi : g.large[i]? = some mem) : mem.addr = addr := by
  obtain ⟨mem', hi', haddr⟩ := owner_large h
  rwa [Option.some.inj (hi.symm.trans hi')]

/-- A large block is as little null as the slice that it was found by. -/
theorem owner_large_isNull {mem large : Slice} (h : g.owner mem.addr = .ok (some (.large i)))
    (hi : g.large[i]? = some large) (hn : mem.isNull = false) : large.isNull = false := by
  rw [Slice.isNull, owner_large_addr h hi]
  exact hn

/-- The owner that is found spans a place that starts at the address. -/
theorem owner_spans (hs : g.Sound) (h : g.owner addr = .ok (some o)) :
    ∃ span, g.Spans o span ∧ span.addr = addr := by
  cases o with
  | large i => exact owner_large h
  | slot c i k =>
    simp only [owner] at h
    obtain ⟨found, hfind, h⟩ := Fault.bind_ok.1 h
    rcases findBucket_ok hfind with ⟨c', i', bs, b, rfl, hc, hi, _⟩ | ⟨rfl, _⟩
    · obtain ⟨slot, hlive, h⟩ := Fault.bind_ok.1 h
      have hpos := (hs.buckets hc b (List.mem_of_getElem? hi)).objSize_pos
      rcases Bucket.liveSlot_ok hpos hlive with ⟨k', rfl, hk, haddr⟩ | ⟨rfl, _⟩
      · cases Fault.pure_ok.1 h
        exact ⟨b.place k, ⟨bs, b, hc, hi, hk, rfl⟩, haddr⟩
      · cases Fault.pure_ok.1 h
    · cases hlarge : g.large.findIdx? (·.addr == addr) <;> rw [hlarge] at h <;>
        cases Fault.pure_ok.1 h

/-- If no owner is found, no place starts at the address. -/
theorem owner_none (hs : g.Sound) (hp : g.Spread) (h : g.owner addr = .ok none)
    (hspan : span ∈ g.places) : span.addr ≠ addr := by
  intro haddr
  have hhas : span.Has addr := by
    rw [← haddr]
    exact Slice.has_addr (hp.pos hs hspan)
  obtain ⟨_, _, hcross⟩ := List.pairwise_append.1 hp.apart
  simp only [owner] at h
  obtain ⟨found, hfind, h⟩ := Fault.bind_ok.1 h
  rcases findBucket_ok hfind with ⟨c, i, bs, b, rfl, hc, hi, hin⟩ | ⟨rfl, hnone⟩
  · obtain ⟨slot, hlive, h⟩ := Fault.bind_ok.1 h
    have hb := mem_buckets.2 ⟨c, i, bs, hc, hi⟩
    have hpos := (hs.buckets hc b (List.mem_of_getElem? hi)).objSize_pos
    rcases Bucket.liveSlot_ok hpos hlive with ⟨k, rfl, _, _⟩ | ⟨rfl, hfree⟩
    · cases Fault.pure_ok.1 h
    -- the place lies in the bucket that was found, or overlaps it
    obtain ⟨o, ho⟩ := mem_places.1 hspan
    cases o with
    | slot c' i' k' =>
      obtain ⟨bs', b', hc', hi', hk', rfl⟩ := ho
      by_cases hci : c = c' ∧ i = i'
      · obtain ⟨rfl, rfl⟩ := hci
        obtain rfl : bs = bs' := Option.some.inj (hc.symm.trans hc')
        obtain rfl : b = b' := Option.some.inj (hi.symm.trans hi')
        exact hfree _ (Bucket.mem_places.2 ⟨k', hk', rfl⟩) haddr
      · have hb' := mem_buckets.2 ⟨c', i', bs', hc', hi'⟩
        have hin' := (hp.roomy b' hb').place_inside (Bitmap.lt_of_get hk')
        exact hp.storage_disjoint hc hi hc' hi' hci addr hin (hin'.has hhas)
    | large j =>
      exact hcross b.storage (List.mem_map_of_mem hb) span (List.mem_of_getElem? ho) addr hin hhas
  · have hlarge : g.large.findIdx? (·.addr == addr) = none := by
      cases hfound : g.large.findIdx? (·.addr == addr) with
      | none => rfl
      | some j =>
        rw [hfound] at h
        cases Fault.pure_ok.1 h
    rcases List.mem_append.1 hspan with hslot | hmem
    · obtain ⟨b, hb, hplace⟩ := List.mem_flatMap.1 hslot
      obtain ⟨c, i, bs, hc, hi⟩ := mem_buckets.1 hb
      have hocc : g.occupied.test c = true :=
        hs.occupied.2 ⟨bs, hc, fun hnil => by simp [hnil] at hi⟩
      exact hnone c (BitSet.mem_ones.2 hocc) bs hc b (List.mem_of_getElem? hi)
        (((hp.roomy b hb).places_inside hplace).has hhas)
    · exact absurd haddr (by simpa using List.findIdx?_eq_none_iff.1 hlarge span hmem)

end GeneralPurpose
end AllocChain
