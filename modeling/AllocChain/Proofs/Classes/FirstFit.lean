import Mathlib.Order.Bounds.Basic
import Mathlib.Order.MinMax
import AllocChain.Proofs.Classes.Undo

/-!
Which slot a small request gets. The buckets of a class stand in the order in which they were put
up, whatever was freed in between (`InOrder`); the first of them that has a vacant slot gives its
lowest one away, and only if there is none does the allocator behind hear of the request, once
(`FirstFit`). A bucket counts as full exactly if it has no vacant slot (`Bucket.Sound.isFull_iff`),
so no room is passed over.

Nothing is assumed about the allocator behind or about the client.
-/

namespace AllocChain

namespace Bucket

variable {b b' : Bucket} {c slot addr : Nat}

/-- The bucket has the slot, and it is not taken. -/
def Vacant (b : Bucket) (slot : Nat) : Prop := slot < b.slots.length ∧ b.slots.get slot = false

/-- `b'` is the bucket `b` with the slot taken. -/
structure Takes (b : Bucket) (slot : Nat) (b' : Bucket) : Prop where
  shape : b.SameShape b'
  bits : ∀ j, b'.slots.get j = (decide (j = slot) || b.slots.get j)
  used : b'.usedCount = b.usedCount + 1

theorem Sound.isFull_iff (hb : b.Sound c) : b.isFull = true ↔ ∀ slot, ¬ b.Vacant slot := by
  have hall : b.slots.taken.length = b.slots.length ↔
      ∀ slot, slot < b.slots.length → b.slots.get slot = true := by
    have hfilter := @List.length_filter_eq_length_iff _ b.slots.get (List.range b.slots.length)
    simpa only [Bitmap.taken, List.length_range, List.mem_range] using hfilter
  rw [isFull, beq_iff_eq, hb.usedCount, hall]
  simp [Vacant]

/-- The slot that is taken is the lowest vacant one. -/
theorem takeSlot_least (hb : b.Sound c) (h : b.takeSlot = .ok (some (addr, b'))) :
    ∃ slot, IsLeast {j | b.Vacant j} slot ∧ b.Takes slot b' ∧ addr = (b.place slot).addr := by
  have hshape := takeSlot_shape h
  obtain ⟨slot, slots, hfirst, hset, haddr, rfl⟩ := takeSlot_eq_some h
  obtain ⟨hlt, hget, hbefore⟩ := hb.packed.firstClear_eq_some_iff.1 hfirst
  refine ⟨slot, ⟨⟨hlt, hget⟩, ?_⟩, ⟨hshape, Bitmap.get_set hb.packed hset, rfl⟩, haddr⟩
  intro j hj
  by_contra hlow
  have htaken := hbefore j (Nat.lt_of_not_le hlow)
  rw [hj.2] at htaken
  cases htaken

/-- A bucket that has a vacant slot gives its lowest one away. -/
theorem Formed.takes {bucketSize : Nat} (hb : b.Formed bucketSize c)
    (hsize : bucketSize ≤ maxBucketSize) (hroom : ∃ j, b.Vacant j) :
    ∃ slot b', IsLeast {j | b.Vacant j} slot ∧ b.Takes slot b' ∧
      b.takeSlot = .ok (some ((b.place slot).addr, b')) := by
  have hnotFull : b.usedCount ≠ b.slots.length := by
    intro hfull
    obtain ⟨j, hj⟩ := hroom
    exact hb.toSound.isFull_iff.1 (beq_iff_eq.2 hfull) j hj
  have hmeasured : b.slots.length * b.objSize < wordLimit :=
    Nat.lt_of_le_of_lt (Nat.le_trans hb.room hsize) (by decide)
  obtain ⟨addr, b', htake⟩ := takeSlot_returns hb.toSound
    (Nat.lt_of_le_of_ne hb.usedCount_le hnotFull) hmeasured
  obtain ⟨slot, hleast, htakes, rfl⟩ := takeSlot_least hb.toSound htake
  exact ⟨slot, b', hleast, htakes, htake⟩

theorem vacant_new {storage : Slice} {objSize slotCount : Nat} :
    (Bucket.new storage objSize slotCount).Vacant slot ↔ slot < slotCount :=
  ⟨fun h => h.1, fun h => ⟨h, Bitmap.get_clear slotCount slot⟩⟩

end Bucket

namespace GeneralPurpose

variable {β : Type} {B : Allocator β} {g : GeneralPurpose} {bs older newer new : List Bucket}
  {b : Bucket} {c c' i n size align addr : Nat} {mem : Slice} {r : Answer} {e : AllocError}

/-! ### How a small request is answered -/

/-- How a request of class `c` is answered when a new bucket is needed: the allocator behind is
asked once, for the size of a bucket aligned to the objects of the class. What it refuses is
refused, with the table as it was; what it hands out is the youngest bucket, and the request gets
its first slot. -/
structure Grows (B : Allocator β) (size align c : Nat) (bs : List Bucket)
    (s : (GeneralPurpose × List Call × β) × Machine) : Prop where
  refused : ∀ e u, B.alloc s.1.1.bucketSize (2 ^ c) (s.1.2.2, s.2) = .ok (.error e, u) →
    GeneralPurpose.alloc B.traced size align s = .ok (.error e,
      ((s.1.1, s.1.2.1 ++ [.alloc s.1.1.bucketSize (2 ^ c) none], u.1), u.2))
  granted : ∀ storage u,
    B.alloc s.1.1.bucketSize (2 ^ c) (s.1.2.2, s.2) = .ok (.ok storage, u) →
    ∃ (b' : Bucket) (occupied : BitSet 1),
      (Bucket.new storage (2 ^ c) (s.1.1.bucketSize / 2 ^ c)).Takes 0 b' ∧
      (∀ c', occupied.test c' = (decide (c' = c) || s.1.1.occupied.test c')) ∧
      GeneralPurpose.alloc B.traced size align s = .ok (.ok ⟨storage.addr, size⟩,
        (({ s.1.1.setBuckets c (bs ++ [b']) with occupied },
          s.1.2.1 ++ [.alloc s.1.1.bucketSize (2 ^ c) (some storage)], u.1),
        u.2.report [.bucketCreated (2 ^ c) (s.1.1.bucketSize / 2 ^ c) storage.addr,
          .smallAlloc size c storage.addr]))
  broken : ∀ brk, B.alloc s.1.1.bucketSize (2 ^ c) (s.1.2.2, s.2) = .error brk →
    GeneralPurpose.alloc B.traced size align s = .error brk

/-- How a request of class `c` is answered, whose buckets are `bs`: from the lowest vacant slot of
the first bucket that has one, with nothing else changed and nobody asked, or from a new bucket. -/
structure FirstFit (B : Allocator β) (size align c : Nat) (bs : List Bucket)
    (s : (GeneralPurpose × List Call × β) × Machine) : Prop where
  row : s.1.1.classes.toList[c]? = some bs
  found : (∃ b ∈ bs, ∃ j, b.Vacant j) → ∃ older b newer slot b',
    bs = older ++ b :: newer ∧ (∀ x ∈ older, ∀ j, ¬ x.Vacant j) ∧
    IsLeast {j | b.Vacant j} slot ∧ b.Takes slot b' ∧
    GeneralPurpose.alloc B.traced size align s = .ok (.ok ⟨b.storage.addr + slot * 2 ^ c, size⟩,
      ((s.1.1.setBuckets c (older ++ b' :: newer), s.1.2),
        s.2.report [.smallAlloc size c (b.storage.addr + slot * 2 ^ c)]))
  full : (∀ b ∈ bs, ∀ j, ¬ b.Vacant j) → Grows B size align c bs s

section

variable {s : (GeneralPurpose × β) × Machine} {u : β × Machine}

/-- A small request goes to the buckets of its class. -/
theorem alloc_small (hs : 0 < size) (halign : ValidAlign align)
    (hclass : s.1.1.sizeClass size (normalizeAlign align) = .ok (some c)) :
    GeneralPurpose.alloc B size align s = allocSmall B c size s := by
  rw [GeneralPurpose.alloc, allocBy_valid hs (validAlign_iff.1 halign), serve_eq hclass]

theorem allocSmall_refused (hbs : s.1.1.bucketsOf c = .ok bs)
    (hfind : bs.findIdx? (!·.isFull) = none)
    (hmul : Word.mul (s.1.1.bucketSize / 2 ^ c) (2 ^ c) = .ok n)
    (hcall : B.alloc n (2 ^ c) (s.1.2, s.2) = .ok (.error e, u)) :
    allocSmall B c size s = .ok (.error e, ((s.1.1, u.1), u.2)) := by
  obtain ⟨⟨g, b⟩, m⟩ := s
  simp only at hbs hmul hcall
  simp [allocSmall, bucketWithRoom, hbs, hfind, hmul, hcall, Except.bind, Except.map]

theorem allocSmall_broken {brk : Breakdown} (hbs : s.1.1.bucketsOf c = .ok bs)
    (hfind : bs.findIdx? (!·.isFull) = none)
    (hmul : Word.mul (s.1.1.bucketSize / 2 ^ c) (2 ^ c) = .ok n)
    (hcall : B.alloc n (2 ^ c) (s.1.2, s.2) = .error brk) :
    allocSmall B c size s = .error brk := by
  obtain ⟨⟨g, b⟩, m⟩ := s
  simp only at hbs hmul hcall
  simp [allocSmall, bucketWithRoom, hbs, hfind, hmul, hcall, Except.bind, Except.map]

/-- Where no bucket has room, the first slot is taken of what is handed out behind. -/
theorem allocSmall_created {storage : Slice} {occupied : BitSet 1} {b' : Bucket}
    (hc : s.1.1.classes.toList[c]? = some bs) (hfind : bs.findIdx? (!·.isFull) = none)
    (hmul : Word.mul (s.1.1.bucketSize / 2 ^ c) (2 ^ c) = .ok n)
    (hcall : B.alloc n (2 ^ c) (s.1.2, s.2) = .ok (.ok storage, u))
    (hocc : (s.1.1.occupied.insert c).result = .ok occupied)
    (htake : (Bucket.new storage (2 ^ c) (s.1.1.bucketSize / 2 ^ c)).takeSlot =
      .ok (some (addr, b'))) :
    allocSmall B c size s = .ok (.ok ⟨addr, size⟩,
      (({ s.1.1.setBuckets c (bs ++ [b']) with occupied }, u.1),
      u.2.report [.bucketCreated (2 ^ c) (s.1.1.bucketSize / 2 ^ c) storage.addr,
        .smallAlloc size c addr])) := by
  have hrow : ({ s.1.1.setBuckets c
      (bs ++ [.new storage (2 ^ c) (s.1.1.bucketSize / 2 ^ c)]) with occupied } :
      GeneralPurpose).classes.toList[c]? = _ := row_setBuckets hc
  have hset : (bs ++ [Bucket.new storage (2 ^ c) (s.1.1.bucketSize / 2 ^ c)]).set bs.length b' =
      bs ++ [b'] := by
    rw [List.set_append_right _ _ (Nat.le_refl _), Nat.sub_self, List.set_cons_zero]
  have hroom := bucketWithRoom_created (bucketsOf_ok.2 hc) hfind hmul hcall hocc
  refine (allocSmall_met hroom (bucketsOf_ok.2 hrow) (elementAt_ok.2 List.getElem?_concat_length)
    htake).trans ?_
  rw [hset, setBuckets_setBuckets, Machine.report_report]
  rfl

end

/-- The first bucket with a vacant slot is the first that is not full. -/
theorem findIdx?_vacant (hbs : ∀ b ∈ bs, b.Sound c) (h : ∃ b ∈ bs, ∃ j, b.Vacant j) :
    ∃ older b newer, bs = older ++ b :: newer ∧ (∀ x ∈ older, ∀ j, ¬ x.Vacant j) ∧
      (∃ j, b.Vacant j) ∧ bs.findIdx? (!·.isFull) = some older.length := by
  obtain ⟨b, hb, j, hj⟩ := h
  have hsome : (bs.find? (!·.isFull)).isSome = true := by
    refine List.find?_isSome.2 ⟨b, hb, ?_⟩
    rw [Bool.not_eq_true', Bool.eq_false_iff]
    exact fun hfull => (hbs b hb).isFull_iff.1 hfull j hj
  obtain ⟨b, hfind⟩ := Option.isSome_iff_exists.1 hsome
  obtain ⟨hroom, older, newer, rfl, hfull⟩ := List.find?_eq_some_iff_append.1 hfind
  refine ⟨older, b, newer, rfl, ?_, ?_, ?_⟩
  · intro x hx
    exact (hbs x (List.mem_append_left _ hx)).isFull_iff.1 (by simpa using hfull x hx)
  · by_contra hnone
    have := (hbs b (List.mem_append_right _ List.mem_cons_self)).isFull_iff.2 (not_exists.1 hnone)
    simp [this] at hroom
  · rw [List.findIdx?_append, List.findIdx?_eq_none_iff.2 (by simpa using hfull)]
    simp [List.findIdx?_cons, hroom]

theorem findIdx?_full (hbs : ∀ b ∈ bs, b.Sound c) (h : ∀ b ∈ bs, ∀ j, ¬ b.Vacant j) :
    bs.findIdx? (!·.isFull) = none := by
  refine List.findIdx?_eq_none_iff.2 ?_
  intro b hb
  rw [(hbs b hb).isFull_iff.2 (h b hb)]
  rfl

theorem new_bucketSize (n : Nat) : ∃ k, (GeneralPurpose.new n).bucketSize = 2 ^ k := by
  have hwanted : ∀ wanted, ∃ k, (Word.nextPowerOfTwo? wanted).getD maxBucketSize = 2 ^ k := by
    intro wanted
    cases hp : Word.nextPowerOfTwo? wanted with
    | none => exact ⟨classCount - 1, rfl⟩
    | some p => exact (Word.nextPowerOfTwo?_eq_some hp).2
  rcases min_choice ((Word.nextPowerOfTwo? (if n = 0 then defaultBucketSize else n)).getD
    maxBucketSize) maxBucketSize with hsize | hsize
  · obtain ⟨k, hk⟩ := hwanted (if n = 0 then defaultBucketSize else n)
    exact ⟨k, hsize.trans hk⟩
  · exact ⟨classCount - 1, hsize⟩

theorem slots_fill (hpow : ∃ k, g.bucketSize = 2 ^ k) (hfits : 2 ^ c ≤ g.bucketSize) :
    g.bucketSize / 2 ^ c * 2 ^ c = g.bucketSize := by
  obtain ⟨k, hk⟩ := hpow
  rw [hk] at hfits ⊢
  exact Nat.div_mul_cancel (dvd_two_pow ⟨c, rfl⟩ hfits)

section

variable {s : (GeneralPurpose × List Call × β) × Machine}

/-- A vacant slot of the class is given away. -/
theorem Shaped.found (h : s.1.1.Shaped) (hc : s.1.1.classes.toList[c]? = some bs)
    (hroom : ∃ b ∈ bs, ∃ j, b.Vacant j) : ∃ older b newer slot b',
    bs = older ++ b :: newer ∧ (∀ x ∈ older, ∀ j, ¬ x.Vacant j) ∧
    IsLeast {j | b.Vacant j} slot ∧ b.Takes slot b' ∧
    allocSmall B.traced c size s = .ok (.ok ⟨b.storage.addr + slot * 2 ^ c, size⟩,
      ((s.1.1.setBuckets c (older ++ b' :: newer), s.1.2),
        s.2.report [.smallAlloc size c (b.storage.addr + slot * 2 ^ c)])) := by
  obtain ⟨older, b, newer, hsplit, hfull, hvacant, hfind⟩ :=
    findIdx?_vacant (h.sound.buckets hc) hroom
  have hat : bs[older.length]? = some b := by
    rw [hsplit, List.getElem?_append_right (Nat.le_refl _), Nat.sub_self]
    rfl
  have hformed := h.bucket ⟨bs, hc, hat⟩
  obtain ⟨slot, b', hleast, htakes, htake⟩ := hformed.takes h.size hvacant
  have hset : bs.set older.length b' = older ++ b' :: newer := by
    rw [hsplit, List.set_append_right _ _ (Nat.le_refl _), Nat.sub_self, List.set_cons_zero]
  refine ⟨older, b, newer, slot, b', hsplit, hfull, hleast, htakes, ?_⟩
  have hmet : allocSmall B.traced c size s = .ok (.ok ⟨(b.place slot).addr, size⟩,
      ((s.1.1.setBuckets c (bs.set older.length b'), s.1.2),
        s.2.report [.smallAlloc size c (b.place slot).addr])) :=
    allocSmall_met (bucketWithRoom_found (bucketsOf_ok.2 hc) hfind) (bucketsOf_ok.2 hc)
      (elementAt_ok.2 hat) htake
  rw [hset, Bucket.place, hformed.objSize] at hmet
  exact hmet

/-- Where a class has no vacant slot, a bucket is put up. -/
theorem Shaped.grows (h : s.1.1.Shaped) (hpow : ∃ k, s.1.1.bucketSize = 2 ^ k)
    (hc : s.1.1.classes.toList[c]? = some bs) (hfits : 2 ^ c ≤ s.1.1.bucketSize)
    (hserve : ∀ {B : Allocator (List Call × β)},
      GeneralPurpose.alloc B size align s = allocSmall B c size s)
    (hfull : ∀ b ∈ bs, ∀ j, ¬ b.Vacant j) : Grows B size align c bs s := by
  have hfind := findIdx?_full (h.sound.buckets hc) hfull
  have hfill := slots_fill hpow hfits
  have hmul : Word.mul (s.1.1.bucketSize / 2 ^ c) (2 ^ c) = .ok s.1.1.bucketSize := by
    have hlt : s.1.1.bucketSize / 2 ^ c * 2 ^ c < wordLimit := by
      rw [hfill]
      exact Nat.lt_of_le_of_lt h.size (by decide)
    rw [Word.mul_of_lt hlt, hfill]
  have hbs := bucketsOf_ok.2 hc
  refine ⟨?_, ?_, ?_⟩
  · intro e u hcall
    exact hserve.trans (allocSmall_refused hbs hfind hmul (B.traced_alloc hcall))
  · intro storage u hcall
    obtain ⟨occupied, hocc⟩ := insert_returns hc
    have hnew := Bucket.Formed.new storage hfits
    have hslots : 0 < s.1.1.bucketSize / 2 ^ c := Nat.div_pos hfits (Nat.two_pow_pos c)
    obtain ⟨slot, b', hleast, htakes, htake⟩ :=
      hnew.takes h.size ⟨0, Bucket.vacant_new.2 hslots⟩
    obtain rfl : slot = 0 := Nat.le_zero.1 (hleast.2 (Bucket.vacant_new.2 hslots))
    refine ⟨b', occupied, htakes, BitSet.test_insert hocc, hserve.trans ?_⟩
    have haddr : ((Bucket.new storage (2 ^ c) (s.1.1.bucketSize / 2 ^ c)).place 0).addr =
        storage.addr := by
      simp [Bucket.place, Bucket.new]
    rw [haddr] at htake
    exact allocSmall_created hc hfind hmul (B.traced_alloc hcall) hocc htake
  · intro brk hcall
    exact hserve.trans (allocSmall_broken hbs hfind hmul (Act.noting_error hcall))

/-- A request of class `c` gets the first slot that fits. -/
theorem Shaped.firstFit (h : s.1.1.Shaped) (hpow : ∃ k, s.1.1.bucketSize = 2 ^ k) (hs : 0 < size)
    (halign : ValidAlign align)
    (hclass : s.1.1.sizeClass size (normalizeAlign align) = .ok (some c)) :
    ∃ bs, FirstFit B size align c bs s := by
  obtain ⟨hlt, hfits⟩ := sizeClass_le hclass
  obtain ⟨bs, hc⟩ := class_returns (g := s.1.1) hlt
  have hserve : ∀ {B : Allocator (List Call × β)},
      GeneralPurpose.alloc B size align s = allocSmall B c size s := alloc_small hs halign hclass
  refine ⟨bs, hc, fun hroom => ?_, h.grows hpow hc hfits hserve⟩
  obtain ⟨older, b, newer, slot, b', hsplit, hfull, hleast, htakes, hmet⟩ := h.found hc hroom
  exact ⟨older, b, newer, slot, b', hsplit, hfull, hleast, htakes, hserve.trans hmet⟩

/-! ### The order of the buckets -/

/-- The storages of the buckets of class `c`, in the order in which the buckets stand. -/
def storages (g : GeneralPurpose) (c : Nat) : List Slice :=
  (g.classes.toList.getD c []).map (·.storage)

/-- The blocks that were handed out for buckets of class `c`, in the order of the calls. -/
def granted (bucketSize c : Nat) (calls : List Call) : List Slice :=
  calls.filterMap fun
    | .alloc size align (some block) =>
      if size = bucketSize ∧ align = 2 ^ c then some block else none
    | _ => none

/-- What became of the buckets from `s` to `t`: in each class those that are left of the ones in `s`
stand in the order in which they stood, and behind them stand those that were put up since, in the
order in which they were handed out. -/
structure InOrder (s t : (GeneralPurpose × List Call × β) × Machine) : Prop where
  bucketSize : t.1.1.bucketSize = s.1.1.bucketSize
  rows : ∃ since, t.1.2.1 = s.1.2.1 ++ since ∧
    ∀ c, ∃ kept put, t.1.1.storages c = kept ++ put ∧ kept.Sublist (s.1.1.storages c) ∧
      put.Sublist (granted s.1.1.bucketSize c since)

variable {t u : (GeneralPurpose × List Call × β) × Machine}

theorem storages_eq (hc : g.classes.toList[c]? = some bs) : g.storages c = bs.map (·.storage) := by
  rw [storages, List.getD_eq_getElem?_getD, hc, Option.getD_some]

theorem storages_setBuckets (hc : g.classes.toList[c]? = some bs) :
    (g.setBuckets c new).storages c' =
      if c' = c then new.map (·.storage) else g.storages c' := by
  simp only [storages, List.getD_eq_getElem?_getD, classes_setBuckets]
  by_cases hcc : c' = c
  · rw [if_pos hcc, hcc, List.getElem?_set_self (List.getElem?_eq_some_iff.1 hc).1,
      Option.getD_some]
  · rw [if_neg hcc, List.getElem?_set_ne (Ne.symm hcc)]

namespace InOrder

theorem of_sublist (hsize : t.1.1.bucketSize = s.1.1.bucketSize)
    (hcalls : ∃ since, t.1.2.1 = s.1.2.1 ++ since)
    (hrows : ∀ c, (t.1.1.storages c).Sublist (s.1.1.storages c)) : InOrder s t := by
  obtain ⟨since, hsince⟩ := hcalls
  exact ⟨hsize, since, hsince,
    fun c => ⟨_, [], (List.append_nil _).symm, hrows c, List.nil_sublist _⟩⟩

theorem refl (s : (GeneralPurpose × List Call × β) × Machine) : InOrder s s :=
  of_sublist rfl ⟨[], (List.append_nil _).symm⟩ fun _ => .refl _

theorem trans (h : InOrder s t) (h' : InOrder t u) : InOrder s u := by
  obtain ⟨hsize, since, hsince, hrows⟩ := h
  obtain ⟨hsize', later, hlater, hrows'⟩ := h'
  refine ⟨hsize'.trans hsize, since ++ later, ?_, ?_⟩
  · rw [hlater, hsince, List.append_assoc]
  intro c
  obtain ⟨kept, put, hrow, hkept, hput⟩ := hrows c
  obtain ⟨kept', put', hrow', hkept', hput'⟩ := hrows' c
  -- what is left of the row in between splits like that row
  rw [hrow] at hkept'
  obtain ⟨old, young, rfl, hold, hyoung⟩ := List.sublist_append_iff.1 hkept'
  rw [hsize] at hput'
  refine ⟨old, young ++ put', ?_, hold.trans hkept, ?_⟩
  · rw [hrow', List.append_assoc]
  · rw [granted, List.filterMap_append]
    exact (hyoung.trans hput).append hput'

theorem of_setBuckets (hc : s.1.1.classes.toList[c]? = some bs)
    (hrows : ∀ c', t.1.1.storages c' = (s.1.1.setBuckets c new).storages c')
    (hsize : t.1.1.bucketSize = s.1.1.bucketSize) (hcalls : ∃ since, t.1.2.1 = s.1.2.1 ++ since)
    (hsub : (new.map (·.storage)).Sublist (bs.map (·.storage))) : InOrder s t := by
  refine of_sublist hsize hcalls fun c' => ?_
  rw [hrows, storages_setBuckets hc]
  by_cases hcc : c' = c
  · rw [if_pos hcc, hcc, storages_eq hc]
    exact hsub
  · rw [if_neg hcc]

end InOrder

theorem map_storage_set {b' : Bucket} (hi : bs[i]? = some b) (hsame : b'.storage = b.storage) :
    (bs.set i b').map (·.storage) = bs.map (·.storage) := by
  obtain ⟨hlt, rfl⟩ := List.getElem?_eq_some_iff.1 hi
  refine List.ext_getElem (by simp) fun j _ _ => ?_
  rw [List.getElem_map, List.getElem_map, List.getElem_set]
  split
  · rename_i hij
    subst hij
    exact hsame
  · rfl

/-- A bucket that is put up is the youngest of its class. -/
theorem Roomed.inOrder {found : Except AllocError Nat} (hpow : ∃ k, s.1.1.bucketSize = 2 ^ k)
    (hfits : 2 ^ c ≤ s.1.1.bucketSize) (h : Roomed B.traced c s found t) : InOrder s t := by
  cases h with
  | found _ _ => exact .refl s
  | refused hcall =>
    obtain ⟨_, _, rfl⟩ := Act.noting_ok.1 hcall
    exact .of_sublist rfl ⟨_, rfl⟩ fun _ => .refl _
  | created hc hcall _ =>
    rw [slots_fill hpow hfits] at hcall
    obtain ⟨_, _, rfl⟩ := Act.noting_ok.1 hcall
    refine ⟨rfl, _, rfl, fun c' => ?_⟩
    by_cases hcc : c' = c
    · subst hcc
      refine ⟨_, _, ((storages_setBuckets hc).trans (if_pos rfl)).trans List.map_append, ?_, ?_⟩
      · rw [storages_eq hc]
      · simp [granted, Bucket.new, Except.toOption]
    · exact ⟨_, [], ((storages_setBuckets hc).trans (if_neg hcc)).trans (List.append_nil _).symm,
        .refl _, List.nil_sublist _⟩

theorem alloc_inOrder (hpow : ∃ k, s.1.1.bucketSize = 2 ^ k)
    (h : GeneralPurpose.alloc B.traced size align s = .ok (r, t)) : InOrder s t := by
  rcases alloc_ok h with ⟨_, _, rfl⟩ | ⟨_, _, ⟨c, hclass, hsmall⟩ | hlarge⟩
  · exact .refl t
  · have hfits := (sizeClass_le hclass).2
    rcases allocSmall_ok hsmall with
      ⟨_, _, _, hroom⟩ | ⟨_, u, bs, b, _, b', _, hroom, hc, hi, htake, _, rfl⟩
    · exact hroom.inOrder hpow hfits
    · have hsame := map_storage_set hi (Bucket.takeSlot_shape htake).storage
      exact (hroom.inOrder hpow hfits).trans (.of_setBuckets hc (fun _ => rfl) rfl
        ⟨[], (List.append_nil _).symm⟩ (hsame ▸ .refl _))
  · obtain ⟨u, ⟨_, _, hcall, rfl⟩ | ⟨_, _, _, hcall, rfl⟩⟩ := allocLarge_ok hlarge
    · obtain ⟨_, _, rfl⟩ := Act.noting_ok.1 hcall
      exact .of_sublist rfl ⟨_, rfl⟩ fun _ => .refl _
    · obtain ⟨_, _, rfl⟩ := Act.noting_ok.1 hcall
      exact .of_sublist rfl ⟨_, rfl⟩ fun _ => .refl _

theorem free_inOrder (h : free B.traced mem s = .ok ((), t)) : InOrder s t := by
  cases free_ok h with
  | null _ => exact .refl s
  | unknown _ _ => exact .of_sublist rfl ⟨[], (List.append_nil _).symm⟩ fun _ => .refl _
  | slot _ _ hrel =>
    cases hrel with
    | kept hc hi hslot _ =>
      have hsame := map_storage_set hi (Bucket.releaseSlot_shape hslot).storage
      exact .of_setBuckets hc (fun _ => rfl) rfl ⟨[], (List.append_nil _).symm⟩ (hsame ▸ .refl _)
    | emptied hc _ _ _ _ hfree =>
      obtain ⟨_, _, rfl⟩ := Act.noting_ok.1 hfree
      exact .of_setBuckets hc (fun _ => rfl) rfl ⟨_, rfl⟩ ((List.eraseIdx_sublist _ _).map _)
  | large _ _ _ hfree =>
    obtain ⟨_, _, rfl⟩ := Act.noting_ok.1 hfree
    exact .of_sublist rfl ⟨_, rfl⟩ fun _ => .refl _

/-- Destroying the table gives back what it stands on, and asks for nothing. -/
theorem destroy_calls (h : GeneralPurpose.destroy B.traced s = .ok ((), t)) :
    t.1.2.1 = s.1.2.1 ++ s.1.1.held.map .free := by
  simp only [GeneralPurpose.destroy, Act.bind_ok, Act.own_ok, Act.setOwn_ok, Act.below_ok] at h
  obtain ⟨_, _, ⟨rfl, rfl⟩, _, _, rfl, _, _, ⟨u, hsmall, rfl⟩, _, _, ⟨v, hlarge, rfl⟩, h⟩ := h
  have hcalls : v.1.1 = s.1.2.1 ++ s.1.1.held.map .free := by
    rw [Allocator.traced_freeAll hlarge, Allocator.traced_freeAll hsmall, held, List.map_append,
      List.append_assoc]
    rfl
  split at h
  · rw [Act.emit_ok.1 h]
    exact hcalls
  · rw [(Act.pure_ok.1 h).2]
    exact hcalls

theorem destroy_inOrder (h : GeneralPurpose.destroy B.traced s = .ok ((), t)) : InOrder s t := by
  have htable := (destroy_ok (.blank _) h trivial).1
  refine .of_sublist (by rw [htable]) ⟨_, destroy_calls h⟩ fun c => ?_
  rw [htable]
  have hnone : (GeneralPurpose.new 0).storages c = [] := by
    simp only [storages, GeneralPurpose.new, Vector.toList_replicate, List.getD_eq_getElem?_getD,
      List.getElem?_replicate]
    split <;> rfl
  exact hnone ▸ List.nil_sublist _

end

/-- The table has its shape and its setting, and its buckets stand as they did in `s` or were put
up since. -/
structure Ordered (n : Nat) (s t : (GeneralPurpose × List Call × β) × Machine) : Prop where
  shaped : t.1.1.Shaped
  setting : t.1.1.bucketSize = (GeneralPurpose.new n).bucketSize
  order : InOrder s t

variable {s t u : (GeneralPurpose × List Call × β) × Machine}

theorem Ordered.two_pow (h : Ordered n s t) : ∃ k, t.1.1.bucketSize = 2 ^ k := by
  rw [h.setting]
  exact new_bucketSize n

/-- The order is kept, whatever is asked and whatever is handed out behind. -/
theorem ordered_steady (B : Allocator β) (n : Nat)
    (s : (GeneralPurpose × List Call × β) × Machine) :
    Steady (allocator B.traced) (adjust B.traced) (Ordered n s) where
  resize_eq := rfl
  machine hi := ⟨hi.shaped, hi.setting, hi.order.bucketSize, hi.order.rows⟩
  alloc hi ha := ⟨alloc_shaped hi.shaped ha, (alloc_bucketSize ha).trans hi.setting,
    hi.order.trans (alloc_inOrder hi.two_pow ha)⟩
  free hi hf := ⟨free_shaped hi.shaped hf, (free_bucketSize hf).trans hi.setting,
    hi.order.trans (free_inOrder hf)⟩
  adjust := by
    intro t block size align r u hi _ _ ha
    cases adjust_ok ha with
    | unknown => exact .inl hi
    | inSlot _ _ =>
      exact .inl ⟨hi.shaped, hi.setting, hi.order.bucketSize, hi.order.rows⟩
    | moved _ hreloc => exact .inr hreloc
    | refused _ _ hcall =>
      obtain ⟨_, _, rfl⟩ := Act.noting_ok.1 hcall
      exact .inl ⟨hi.shaped, hi.setting,
        hi.order.trans (.of_sublist rfl ⟨_, rfl⟩ fun _ => .refl _)⟩
    | behind _ _ hcall =>
      obtain ⟨_, _, rfl⟩ := Act.noting_ok.1 hcall
      exact .inl ⟨hi.shaped.large _, hi.setting,
        hi.order.trans (.of_sublist rfl ⟨_, rfl⟩ fun _ => .refl _)⟩

theorem Ordered.destroy (h : Ordered n s t)
    (hd : GeneralPurpose.destroy B.traced t = .ok ((), u)) : Ordered n s u := by
  have htable := (destroy_ok (.blank _) hd trivial).1
  refine ⟨?_, ?_, h.order.trans (destroy_inOrder hd)⟩
  · rw [htable]
    exact h.shaped.cleared
  · rw [htable]
    exact h.setting

theorem Ordered.run {live : List (Lease (GeneralPurpose × List Call × β))} (h : Ordered n s t)
    (hrun : Run (allocator B.traced) [GeneralPurpose.destroy B.traced] Unruly t live u) :
    Ordered n s u := by
  refine (ordered_steady B n s).run ?_ h hrun
  intro x hx v w hv hd
  rw [List.mem_singleton.1 hx] at hd
  exact hv.destroy hd

end GeneralPurpose

/-- Whatever a client does with a general-purpose allocator, overwriting bytes and destroying the
allocator on the way included, and whatever the allocator behind hands out: a small request gets the
lowest vacant slot of the oldest bucket that has one, a new bucket is put up only where there is
none, and the buckets of a class stand in the order in which they were put up. -/
theorem firstFit_of_unruly {β : Type} {B : Allocator β} {n : Nat} {b : β} {m : Machine}
    {live : List (Lease (GeneralPurpose × List Call × β))}
    {s : (GeneralPurpose × List Call × β) × Machine}
    (hrun : Run (GeneralPurpose.allocator B.traced) [GeneralPurpose.destroy B.traced] Unruly
      ((GeneralPurpose.new n, [], b), m) live s) :
    (∀ size align c, 0 < size → ValidAlign align →
      s.1.1.sizeClass size (normalizeAlign align) = .ok (some c) →
      ∃ bs, GeneralPurpose.FirstFit B size align c bs s) ∧
    ∀ live' t, Run (GeneralPurpose.allocator B.traced) [GeneralPurpose.destroy B.traced] Unruly
      s live' t → GeneralPurpose.InOrder s t := by
  have hstart : GeneralPurpose.Ordered n ((GeneralPurpose.new n, [], b), m)
      ((GeneralPurpose.new n, [], b), m) := ⟨.new n, rfl, .refl _⟩
  have hs := hstart.run hrun
  refine ⟨fun size align c hpos halign hclass =>
    hs.shaped.firstFit hs.two_pow hpos halign hclass, fun live' t hcont => ?_⟩
  have hhere : GeneralPurpose.Ordered n s s := ⟨hs.shaped, hs.setting, .refl s⟩
  exact (hhere.run hcont).order

/-- Three buckets of four slots are put up over a fixed region, the middle one goes again, and the
third slot of the oldest one: that is the slot that the next request gets. -/
theorem firstFit_of_gaps :
    ∃ live s bs, Run (GeneralPurpose.allocator Fixed.allocator.traced)
        [GeneralPurpose.destroy Fixed.allocator.traced] Unruly
        ((GeneralPurpose.new 64, [], ⟨64, 1024, 0⟩), ⟨.zero, [], []⟩) live s ∧
      bs.map (fun b => (b.storage.addr, b.slots.taken)) = [(80, [0, 1, 3]), (240, [0])] ∧
      GeneralPurpose.FirstFit Fixed.allocator 10 8 4 bs s ∧
      GeneralPurpose.InOrder ((GeneralPurpose.new 64, [], ⟨64, 1024, 0⟩), ⟨.zero, [], []⟩) s := by
  have hlast : ((GeneralPurpose.allocator Fixed.allocator.traced).play Unruly
      (List.replicate 9 (.alloc 10 8) ++ [.free ⟨160, 10⟩, .free ⟨192, 10⟩, .free ⟨208, 10⟩,
        .free ⟨176, 10⟩, .free ⟨112, 10⟩]) []
      ((GeneralPurpose.new 64, [], ⟨64, 1024, 0⟩), ⟨.zero, [], []⟩)).map
        (fun r => (r.2.1.1.bucketSize,
          r.2.1.1.classes.toList[4]?.map (·.map fun b => (b.storage.addr, b.slots.taken)))) =
        some (64, some [(80, [0, 1, 3]), (240, [0])]) := by
    decide +kernel
  obtain ⟨⟨live, s⟩, hplay, hends⟩ := Option.map_eq_some_iff.1 hlast
  obtain ⟨hsize, hrow⟩ := Prod.mk.inj hends
  have hclass : s.1.1.sizeClass 10 (normalizeAlign 8) = .ok (some 4) := by
    rw [GeneralPurpose.sizeClass_eq, show s.1.1.bucketSize = 64 from hsize]
    rfl
  obtain ⟨bs, hbs, hslots⟩ := Option.map_eq_some_iff.1 hrow
  have hrun : Run (GeneralPurpose.allocator Fixed.allocator.traced)
      [GeneralPurpose.destroy Fixed.allocator.traced] Unruly _ live s := Run.start.play hplay
  obtain ⟨bs', hfit⟩ := (firstFit_of_unruly hrun).1 10 8 4 (by decide) (.inr ⟨3, rfl⟩) hclass
  obtain rfl : bs = bs' := Option.some.inj (hbs.symm.trans hfit.row)
  exact ⟨live, s, bs, hrun, hslots, hfit, (firstFit_of_unruly Run.start).2 live s hrun⟩

end AllocChain
