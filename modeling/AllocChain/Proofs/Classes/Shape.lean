import AllocChain.Proofs.Classes.Lookup
import AllocChain.Proofs.Classes.Tenant
import AllocChain.Proofs.Ownership

/-!
The shape of a general-purpose allocator's table over any allocator that hands out no block that
wraps round (`Unwrapped`), be its blocks short, misaligned or on top of each other. The bitmap, the
count of used slots and the set of occupied classes agree, and no bucket is kept that is empty
(`Shaped`). In between a bucket that was found or made for a request has room (`Ready`), and with a
slot taken of it the table has its shape again.
-/

namespace AllocChain

variable {β : Type}

/-- As long as its bookkeeping is one that `ok` admits, the allocator hands out no block that wraps
round, and it stays so. -/
structure Unwrapped (B : Allocator β) (ok : β → Prop) : Prop where
  alloc {s size align r t} : ok s.1 → B.alloc size align s = .ok (r, t) →
    ok t.1 ∧ ∀ block, r = .ok block → block.Bounded
  resize {s old size align r t} : ok s.1 → old.Bounded →
    B.resize old size align s = .ok (r, t) → ok t.1 ∧ ∀ block, r = .ok block → block.Bounded
  free {s block t} : ok s.1 → B.free block s = .ok ((), t) → ok t.1

/-- Whatever is handed out and not taken back does not wrap round. -/
theorem Unwrapped.ledger {B : Allocator β} {ok : β → Prop} (h : Unwrapped B ok) :
    Ledger B (fun _ _ block => block.Bounded)
      (fun out s => ok s.1 ∧ ∀ block ∈ out, block.Bounded) where
  perm hp hh := ⟨hh.1, fun block hb => hh.2 block (hp.mem_iff.2 hb)⟩
  report hh := hh
  alloc hh ha := by
    obtain ⟨hok, hbound⟩ := h.alloc hh.1 ha
    exact ⟨hbound _ rfl, hok, List.forall_mem_cons.2 ⟨hbound _ rfl, hh.2⟩⟩
  alloc_refused hh ha := ⟨(h.alloc hh.1 ha).1, hh.2⟩
  resize hh _ _ hr := by
    obtain ⟨hold, hrest⟩ := List.forall_mem_cons.1 hh.2
    obtain ⟨hok, hbound⟩ := h.resize hh.1 hold hr
    exact ⟨hbound _ rfl, hok, List.forall_mem_cons.2 ⟨hbound _ rfl, hrest⟩⟩
  resize_refused hh _ _ hr :=
    ⟨(h.resize hh.1 (List.forall_mem_cons.1 hh.2).1 hr).1, hh.2⟩
  free hh hf := ⟨h.free hh.1 hf, (List.forall_mem_cons.1 hh.2).2⟩

namespace Bucket

/-- A bucket of class `c` with as many slots as fit into `bucketSize` bytes. -/
structure Formed (bucketSize c : Nat) (b : Bucket) : Prop extends b.Sound c where
  length : b.slots.length = bucketSize / 2 ^ c
  fits : 2 ^ c ≤ bucketSize

variable {b b' : Bucket} {bucketSize c : Nat}

theorem Formed.usedCount_le (h : b.Formed bucketSize c) : b.usedCount ≤ b.slots.length := by
  have hle := List.length_filter_le b.slots.get (List.range b.slots.length)
  rw [List.length_range] at hle
  rw [h.usedCount]
  exact hle

theorem Formed.room (h : b.Formed bucketSize c) : b.slots.length * b.objSize ≤ bucketSize := by
  rw [h.length, h.objSize]
  exact Nat.div_mul_le_self _ _

theorem Formed.new (storage : Slice) (h : 2 ^ c ≤ bucketSize) :
    (Bucket.new storage (2 ^ c) (bucketSize / 2 ^ c)).Formed bucketSize c :=
  { sound_new storage c _ with length := rfl, fits := h }

theorem Formed.reshape (h : b.Formed bucketSize c) (hs : b'.Sound c) (hshape : SameShape b b') :
    b'.Formed bucketSize c :=
  { hs with length := hshape.length.trans h.length, fits := h.fits }

theorem takeSlot_busy {addr : Nat} (hb : b.Sound c) (h : b.takeSlot = .ok (some (addr, b'))) :
    0 < b'.usedCount := by
  obtain ⟨hb', slot, _, _, _, hplaces⟩ := takeSlot_ok hb h
  have hlen := hplaces.length_eq
  rw [places, List.length_map, ← hb'.usedCount, List.length_cons] at hlen
  omega

end Bucket

namespace GeneralPurpose

variable {B : Allocator β} {ok : β → Prop} {s t : (GeneralPurpose × β) × Machine}
  {g : GeneralPurpose} {mem : Slice} {c c' i j n size align : Nat} {bs : List Bucket}
  {b b' x : Bucket} {occupied : BitSet 1} {r : Answer}

/-- Bucket `i` of class `c` is `b`. -/
def At (g : GeneralPurpose) (c i : Nat) (b : Bucket) : Prop :=
  ∃ bs, g.classes.toList[c]? = some bs ∧ bs[i]? = some b

/-- Every bucket has the slots of its class, and the marks are exact. -/
structure Formed (g : GeneralPurpose) : Prop where
  sound : g.Sound
  size : g.bucketSize ≤ maxBucketSize
  bucket {c i : Nat} {b : Bucket} : g.At c i b → b.Formed g.bucketSize c

/-- Every bucket has a slot in use, too. -/
structure Shaped (g : GeneralPurpose) : Prop extends Formed g where
  busy {c i : Nat} {b : Bucket} : g.At c i b → 0 < b.usedCount

/-- One bucket has room, and every other bucket has a slot in use. -/
structure Ready (g : GeneralPurpose) (c i : Nat) : Prop extends Formed g where
  room : ∃ b, g.At c i b ∧ b.usedCount < b.slots.length
  busy {c' j : Nat} {b : Bucket} : g.At c' j b → ¬ (c' = c ∧ j = i) → 0 < b.usedCount

/-! ### Buckets by position -/

theorem At.unique (h : g.At c i b) (h' : g.At c i b') : b = b' := by
  obtain ⟨bs, hc, hi⟩ := h
  obtain ⟨bs', hc', hi'⟩ := h'
  obtain rfl : bs = bs' := Option.some.inj (hc.symm.trans hc')
  exact Option.some.inj (hi.symm.trans hi')

theorem mem_buckets_at : b ∈ g.buckets ↔ ∃ c i, g.At c i b := by
  rw [mem_buckets]
  constructor
  · rintro ⟨c, i, bs, hc, hi⟩
    exact ⟨c, i, bs, hc, hi⟩
  · rintro ⟨c, i, bs, hc, hi⟩
    exact ⟨c, i, bs, hc, hi⟩

theorem at_setBuckets (hc : g.classes.toList[c]? = some bs) {new : List Bucket}
    (h : (g.setBuckets c new).At c' j x) :
    c' = c ∧ new[j]? = some x ∨ c' ≠ c ∧ g.At c' j x := by
  obtain ⟨row, hrow, hj⟩ := h
  rw [classes_setBuckets, List.getElem?_set] at hrow
  by_cases hcc : c = c'
  · rw [if_pos hcc, if_pos (List.getElem?_eq_some_iff.1 hc).1, Option.some.injEq] at hrow
    rw [hrow]
    exact .inl ⟨hcc.symm, hj⟩
  · rw [if_neg hcc] at hrow
    exact .inr ⟨Ne.symm hcc, row, hrow, hj⟩

theorem at_append (hc : g.classes.toList[c]? = some bs)
    (h : (g.setBuckets c (bs ++ [b])).At c' j x) :
    (c' = c ∧ j = bs.length) ∧ x = b ∨ ¬ (c' = c ∧ j = bs.length) ∧ g.At c' j x := by
  rcases at_setBuckets hc h with ⟨rfl, hj⟩ | ⟨hne, hat⟩
  · rw [List.getElem?_append] at hj
    by_cases hlt : j < bs.length
    · rw [if_pos hlt] at hj
      exact .inr ⟨fun hpos => by omega, bs, hc, hj⟩
    · rw [if_neg hlt, List.getElem?_singleton] at hj
      split at hj
      · cases hj
        exact .inl ⟨⟨rfl, by omega⟩, rfl⟩
      · cases hj
  · exact .inr ⟨fun hpos => hne hpos.1, hat⟩

theorem at_set (hc : g.classes.toList[c]? = some bs)
    (h : (g.setBuckets c (bs.set i b)).At c' j x) :
    (c' = c ∧ j = i) ∧ x = b ∨ ¬ (c' = c ∧ j = i) ∧ g.At c' j x := by
  rcases at_setBuckets hc h with ⟨rfl, hj⟩ | ⟨hne, hat⟩
  · rw [List.getElem?_set] at hj
    by_cases hij : i = j
    · rw [if_pos hij] at hj
      split at hj
      · cases hj
        exact .inl ⟨⟨rfl, hij.symm⟩, rfl⟩
      · cases hj
    · rw [if_neg hij] at hj
      exact .inr ⟨fun hpos => hij hpos.2.symm, bs, hc, hj⟩
  · exact .inr ⟨fun hpos => hne hpos.1, hat⟩

theorem at_eraseIdx (hc : g.classes.toList[c]? = some bs)
    (h : (g.setBuckets c (bs.eraseIdx i)).At c' j x) : ∃ j', g.At c' j' x := by
  rcases at_setBuckets hc h with ⟨rfl, hj⟩ | ⟨_, hat⟩
  · have hmem := List.mem_of_mem_eraseIdx (List.mem_of_getElem? hj)
    obtain ⟨j', hj'⟩ := List.mem_iff_getElem?.1 hmem
    exact ⟨j', bs, hc, hj'⟩
  · exact ⟨j, hat⟩

/-! ### The shape is kept -/

/-- A bucket of the class of a request has at least one slot. -/
theorem sizeClass_le (h : g.sizeClass size align = .ok (some c)) :
    c < classCount ∧ 2 ^ c ≤ g.bucketSize := by
  obtain ⟨_, hfits, hclass⟩ := sizeClass_eq_some_iff.1 h
  exact ⟨hclass, hfits⟩

theorem not_at_new : ¬ (GeneralPurpose.new n).At c i b := by
  intro hat
  have hb := mem_buckets_at.2 ⟨c, i, hat⟩
  rw [buckets_new] at hb
  cases hb

theorem Shaped.new (n : Nat) : (GeneralPurpose.new n).Shaped :=
  ⟨⟨.new n, Nat.min_le_right _ _, fun hat => absurd hat not_at_new⟩,
    fun hat => absurd hat not_at_new⟩

/-- Only the buckets, their marks and their size matter. -/
theorem Shaped.large (h : g.Shaped) (large : List Slice) : Shaped { g with large } :=
  ⟨⟨h.sound.large large, h.size, h.bucket⟩, h.busy⟩

/-- After a bucket with room was found or put up, it is ready. -/
theorem Shaped.roomed (h : s.1.1.Shaped) (hfits : 2 ^ c ≤ s.1.1.bucketSize)
    {found : Except AllocError Nat} (hr : Roomed B c s found t) :
    (∃ e, found = .error e ∧ t.1.1.Shaped) ∨ ∃ i, found = .ok i ∧ t.1.1.Ready c i := by
  cases hr with
  | @found bs i hc hfind =>
    obtain ⟨hlt, hroom, _⟩ := List.findIdx?_eq_some_iff_getElem.1 hfind
    have hat : s.1.1.At c i bs[i] := ⟨bs, hc, List.getElem?_eq_getElem hlt⟩
    have hne : bs[i].usedCount ≠ bs[i].slots.length := by
      simpa [Bucket.isFull] using hroom
    exact .inr ⟨i, rfl, h.toFormed,
      ⟨bs[i], hat, Nat.lt_of_le_of_ne (h.bucket hat).usedCount_le hne⟩, fun hat _ => h.busy hat⟩
  | refused _ => exact .inl ⟨_, rfl, h⟩
  | @created bs storage u es occupied hc hcall hocc =>
    have hnew := Bucket.Formed.new storage hfits
    have hlast : (s.1.1.setBuckets c (bs ++ [.new storage (2 ^ c) (s.1.1.bucketSize / 2 ^ c)])).At c
        bs.length (.new storage (2 ^ c) (s.1.1.bucketSize / 2 ^ c)) := by
      refine ⟨_, ?_, List.getElem?_concat_length⟩
      rw [classes_setBuckets, List.getElem?_set_self (List.getElem?_eq_some_iff.1 hc).1]
    refine .inr ⟨bs.length, rfl, ⟨h.sound.append hc hnew.toSound hocc, h.size, fun hat => ?_⟩,
      ⟨_, hlast, Nat.div_pos hfits (Nat.two_pow_pos c)⟩, fun hat hne => ?_⟩
    · rcases at_append hc hat with ⟨⟨rfl, _⟩, rfl⟩ | ⟨_, hold⟩
      · exact hnew
      · exact h.bucket hold
    · rcases at_append hc hat with ⟨hpos, _⟩ | ⟨_, hold⟩
      · exact absurd hpos hne
      · exact h.busy hold

theorem Ready.takeSlot (h : g.Ready c i) (hat : g.At c i b) :
    ∃ addr b', b.takeSlot = .ok (some (addr, b')) := by
  obtain ⟨b', hat', hroom⟩ := h.room
  obtain rfl := hat.unique hat'
  have hformed := h.bucket hat
  have hsize : b.slots.length * b.objSize < wordLimit :=
    Nat.lt_of_le_of_lt (Nat.le_trans hformed.room h.size) (by decide)
  exact Bucket.takeSlot_returns hformed.toSound hroom hsize

/-- With a slot taken of the bucket that was ready, every bucket has one in use. -/
theorem Ready.taken (h : g.Ready c i) (hc : g.classes.toList[c]? = some bs)
    (hi : bs[i]? = some b) {addr : Nat} (htake : b.takeSlot = .ok (some (addr, b'))) :
    (g.setBuckets c (bs.set i b')).Shaped := by
  have hformed := h.bucket ⟨bs, hc, hi⟩
  obtain ⟨hsound, _⟩ := Bucket.takeSlot_ok hformed.toSound htake
  refine ⟨⟨h.sound.set hc hi hsound, h.size, fun hat => ?_⟩, fun hat => ?_⟩
  · rcases at_set hc hat with ⟨⟨rfl, _⟩, rfl⟩ | ⟨_, hold⟩
    · exact hformed.reshape hsound (Bucket.takeSlot_shape htake)
    · exact h.bucket hold
  · rcases at_set hc hat with ⟨_, rfl⟩ | ⟨hne, hold⟩
    · exact Bucket.takeSlot_busy hformed.toSound htake
    · exact h.busy hold hne

/-- Giving back a slot leaves no empty bucket. -/
theorem Shaped.released (h : s.1.1.Shaped) {k : Nat} {span : Slice}
    (hspan : s.1.1.Spans (.slot c i k) span) (hr : Released B c i k s t) : t.1.1.Shaped := by
  obtain ⟨bs, b, hc, hi, hk, _⟩ := hspan
  have hformed := h.bucket ⟨bs, hc, hi⟩
  cases hr with
  | @kept bs' b₁ b' es hc' hi' hslot hbusy =>
    obtain rfl : bs = bs' := Option.some.inj (hc.symm.trans hc')
    obtain rfl : b = b₁ := Option.some.inj (hi.symm.trans hi')
    obtain ⟨hsound, _⟩ := Bucket.releaseSlot_ok hformed.toSound hk hslot
    refine ⟨⟨h.sound.set hc hi hsound, h.size, fun hat => ?_⟩, fun hat => ?_⟩
    · rcases at_set hc hat with ⟨⟨rfl, _⟩, rfl⟩ | ⟨_, hold⟩
      · exact hformed.reshape hsound (Bucket.releaseSlot_shape hslot)
      · exact h.bucket hold
    · rcases at_set hc hat with ⟨_, rfl⟩ | ⟨_, hold⟩
      · exact Nat.pos_of_ne_zero hbusy
      · exact h.busy hold
  | @emptied bs' b₁ b' occupied es u hc' hi' hslot hzero hocc _ =>
    obtain rfl : bs = bs' := Option.some.inj (hc.symm.trans hc')
    refine ⟨⟨h.sound.eraseIdx hc hi hocc, h.size, fun hat => ?_⟩, fun hat => ?_⟩
    · obtain ⟨_, hold⟩ := at_eraseIdx hc hat
      exact h.bucket hold
    · obtain ⟨_, hold⟩ := at_eraseIdx hc hat
      exact h.busy hold

/-! ### The shape after every run -/

theorem alloc_shaped (h : s.1.1.Shaped) (ha : GeneralPurpose.alloc B size align s = .ok (r, t)) :
    t.1.1.Shaped := by
  rcases alloc_ok ha with ⟨_, _, rfl⟩ | ⟨_, _, ⟨c, hclass, hsmall⟩ | hlarge⟩
  · exact h
  · have hfits := (sizeClass_le hclass).2
    cases allocSmall_slotted hsmall with
    | refused hroom =>
      rcases h.roomed hfits hroom with ⟨_, _, hshaped⟩ | ⟨_, hbad, _⟩
      · exact hshaped
      · cases hbad
    | full hroom hc hi htake =>
      rcases h.roomed hfits hroom with ⟨_, hbad, _⟩ | ⟨_, heq, hready⟩
      · cases hbad
      · cases heq
        obtain ⟨_, _, hslot⟩ := hready.takeSlot ⟨_, hc, hi⟩
        rw [htake] at hslot
        cases hslot
    | taken hroom hc hi htake =>
      rcases h.roomed hfits hroom with ⟨_, hbad, _⟩ | ⟨_, heq, hready⟩
      · cases hbad
      · cases heq
        exact hready.taken hc hi htake
  · obtain ⟨u, ⟨_, _, _, rfl⟩ | ⟨_, _, _, _, rfl⟩⟩ := allocLarge_ok hlarge
    · exact h
    · exact h.large _

/-- A request of a well-shaped table is refused where a bucket or a large block is refused, and for
no other reason: a bucket that was found or made has a slot. -/
theorem refused_behind {e : AllocError} (hs : s.1.1.Shaped)
    (h : GeneralPurpose.alloc B size align s = .ok (.error e, t)) :
    t = s ∨ ∃ size' align' e' u, B.alloc size' align' (s.1.2, s.2) = .ok (.error e', u) ∧
      t = ((s.1.1, u.1), u.2) := by
  rcases alloc_ok h with ⟨_, _, hst⟩ | ⟨_, _, ⟨c, hclass, hsmall⟩ | hlarge⟩
  · exact .inl hst
  · cases allocSmall_slotted hsmall with
    | refused hroom =>
      cases hroom with
      | refused hcall => exact .inr ⟨_, _, _, _, hcall, rfl⟩
    | full hroom hc hi htake =>
      rcases hs.roomed (sizeClass_le hclass).2 hroom with ⟨_, hbad, _⟩ | ⟨_, heq, hready⟩
      · cases hbad
      · cases heq
        obtain ⟨_, _, hslot⟩ := hready.takeSlot ⟨_, hc, hi⟩
        rw [htake] at hslot
        cases hslot
  · obtain ⟨u, ⟨_, _, hcall, rfl⟩ | ⟨_, _, hbad, _⟩⟩ := allocLarge_ok hlarge
    · exact .inr ⟨_, _, _, _, hcall, rfl⟩
    · cases hbad

theorem free_shaped (h : s.1.1.Shaped) (hf : GeneralPurpose.free B mem s = .ok ((), t)) :
    t.1.1.Shaped := by
  cases free_ok hf with
  | null _ => exact h
  | unknown _ _ => exact h
  | slot _ howner hrel =>
    obtain ⟨span, hspan, _⟩ := owner_spans h.sound howner
    exact h.released hspan hrel
  | large _ _ _ _ => exact h.large _

/-- The shape is kept, whatever is asked and whatever is handed out behind. -/
theorem shaped_steady (B : Allocator β) :
    Steady (allocator B) (adjust B) fun s => s.1.1.Shaped where
  resize_eq := rfl
  machine hi := hi
  alloc hi ha := alloc_shaped hi ha
  free hi hf := free_shaped hi hf
  adjust := by
    intro s block size align r t hi _ _ ha
    cases adjust_ok ha with
    | unknown => exact .inl hi
    | inSlot _ _ => exact .inl hi
    | moved _ hreloc => exact .inr hreloc
    | refused _ _ _ => exact .inl hi
    | behind _ _ _ => exact .inl (hi.large _)

theorem Shaped.cleared (h : g.Shaped) : Shaped { g with
    classes := Vector.replicate classCount [], occupied := .empty, large := [] } := by
  have hnone : ∀ {c i b}, ¬ (GeneralPurpose.new 0).At c i b := not_at_new
  exact ⟨⟨.cleared g, h.size, fun hat => absurd hat hnone⟩, fun hat => absurd hat hnone⟩

/-- The table has its shape and its setting, and neither it nor what is still to be handed out
wraps round. -/
structure Standing (ok : β → Prop) (n : Nat) (s : (GeneralPurpose × β) × Machine) : Prop where
  shaped : s.1.1.Shaped
  setting : s.1.1.bucketSize = (GeneralPurpose.new n).bucketSize
  backed : ok s.1.2 ∧ ∀ block ∈ s.1.1.held, block.Bounded

theorem standing_new {b : β} {m : Machine} (hok : ok b) :
    Standing ok n ((GeneralPurpose.new n, b), m) := by
  refine ⟨.new n, rfl, hok, ?_⟩
  rw [held_new]
  simp

/-- The shape is kept, whatever is asked. -/
theorem standing_steady (hB : Unwrapped B ok) (n : Nat) :
    Steady (allocator B) (adjust B) (Standing ok n) where
  resize_eq := rfl
  machine hi := ⟨hi.shaped, hi.setting, hi.backed⟩
  alloc hi ha := ⟨alloc_shaped hi.shaped ha, (alloc_bucketSize ha).trans hi.setting,
    alloc_held hB.ledger ha hi.backed⟩
  free hi hf := ⟨free_shaped hi.shaped hf, (free_bucketSize hf).trans hi.setting,
    free_held hB.ledger hf hi.backed⟩
  adjust := by
    intro s block size align r t hi hn hs ha
    rcases adjust_held hB.ledger hn hs ha hi.backed with ⟨hback, large, htable⟩ | hreloc
    · refine .inl ⟨?_, ?_, hback⟩
      · rw [htable]
        exact hi.shaped.large large
      · rw [htable]
        exact hi.setting
    · exact .inr hreloc

theorem Standing.destroy (hB : Unwrapped B ok) (h : Standing ok n s)
    (hd : GeneralPurpose.destroy B s = .ok ((), t)) : Standing ok n t := by
  obtain ⟨hown, hok, _⟩ := destroy_ok hB.ledger hd h.backed
  have hnew : t.1.1 = GeneralPurpose.new n := hown.trans (emptied_eq_new h.setting)
  obtain ⟨⟨g, b⟩, m⟩ := t
  obtain rfl : g = GeneralPurpose.new n := hnew
  exact standing_new hok

end GeneralPurpose
end AllocChain
