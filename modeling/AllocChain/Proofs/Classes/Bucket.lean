import AllocChain.Classes.Bucket
import AllocChain.Proofs.Bits.Bitmap
import AllocChain.Proofs.Extent
import AllocChain.Proofs.Inversion

/-!
The places of a bucket: one for each slot whose bit is set. Taking a slot adds a place, giving one
back takes it away, and no two places of a bucket overlap (`Bucket.places_apart`). Looking an
address up finds exactly the places (`liveSlot_ok`, `findContaining_ok`).
-/

namespace AllocChain

theorem Slice.contains_ok {s : Slice} {addr : Nat} {found : Bool}
    (h : s.contains addr = .ok found) : found = true ↔ s.Has addr := by
  simp only [contains] at h
  simp only [Has]
  by_cases hlt : addr < s.addr
  · rw [if_pos hlt] at h
    cases h
    simp only [Bool.false_eq_true, false_iff]
    omega
  · rw [if_neg hlt] at h
    obtain ⟨stop, hstop, rfl⟩ := Fault.map_ok.1 h
    obtain ⟨_, rfl⟩ := Word.add_eq_ok_iff.1 hstop
    rw [decide_eq_true_iff]
    omega

namespace Bucket

/-- The bits are packed and counted, and the objects are those of class `c`. -/
structure Sound (c : Nat) (b : Bucket) : Prop where
  objSize : b.objSize = 2 ^ c
  packed : b.slots.Packed
  usedCount : b.usedCount = b.slots.taken.length

/-- The bytes of a slot. -/
def place (b : Bucket) (slot : Nat) : Slice := ⟨b.storage.addr + slot * b.objSize, b.objSize⟩

/-- The slots that are taken. -/
def places (b : Bucket) : List Slice := b.slots.taken.map b.place

/-- The storage has room for all slots, and they are aligned to their size. -/
structure Roomy (b : Bucket) : Prop where
  room : b.slots.length * b.objSize ≤ b.storage.len
  aligned : b.objSize ∣ b.storage.addr

/-- Buckets over the same storage with the same slots; only the bits may differ. -/
structure SameShape (b b' : Bucket) : Prop where
  storage : b'.storage = b.storage
  objSize : b'.objSize = b.objSize
  length : b'.slots.length = b.slots.length

variable {b b' : Bucket} {bs : List Bucket} {c slot addr : Nat}

theorem SameShape.roomy (h : SameShape b b') (hr : b.Roomy) : b'.Roomy where
  room := by
    rw [h.storage, h.objSize, h.length]
    exact hr.room
  aligned := by
    rw [h.storage, h.objSize]
    exact hr.aligned

theorem SameShape.place (h : SameShape b b') : b'.place = b.place := by
  funext slot
  simp only [Bucket.place]
  rw [h.storage, h.objSize]

theorem Sound.objSize_pos (h : b.Sound c) : 0 < b.objSize := by
  rw [h.objSize]
  exact Nat.two_pow_pos c

theorem mem_places {place : Slice} :
    place ∈ b.places ↔ ∃ slot, b.slots.get slot = true ∧ b.place slot = place := by
  simp only [places, List.mem_map, Bitmap.mem_taken]

theorem Roomy.place_inside (h : b.Roomy) (hslot : slot < b.slots.length) :
    (b.place slot).Inside b.storage := by
  have hroom := h.room
  have hmul : (slot + 1) * b.objSize ≤ b.slots.length * b.objSize :=
    Nat.mul_le_mul_right _ hslot
  rw [Nat.succ_mul] at hmul
  simp only [Slice.Inside, place]
  omega

theorem Roomy.places_inside (h : b.Roomy) {place : Slice} (hp : place ∈ b.places) :
    place.Inside b.storage := by
  obtain ⟨slot, hget, rfl⟩ := mem_places.1 hp
  exact h.place_inside (Bitmap.lt_of_get hget)

theorem Roomy.dvd_place (h : b.Roomy) (slot : Nat) : b.objSize ∣ (b.place slot).addr :=
  Nat.dvd_add h.aligned (Nat.dvd_mul_left _ _)

theorem place_disjoint {slot' : Nat} (h : slot ≠ slot') :
    (b.place slot).Disjoint (b.place slot') := by
  refine Slice.disjoint_of_le ?_
  simp only [place]
  rcases Nat.lt_or_gt_of_ne h with hlt | hgt
  · have hmul : (slot + 1) * b.objSize ≤ slot' * b.objSize := Nat.mul_le_mul_right _ hlt
    rw [Nat.succ_mul] at hmul
    omega
  · have hmul : (slot' + 1) * b.objSize ≤ slot * b.objSize := Nat.mul_le_mul_right _ hgt
    rw [Nat.succ_mul] at hmul
    omega

theorem places_apart (b : Bucket) : b.places.Pairwise Slice.Disjoint :=
  List.pairwise_map.2 (b.slots.nodup_taken.imp place_disjoint)

/-! ### Taking and giving back -/

theorem places_new (storage : Slice) (objSize slotCount : Nat) :
    (Bucket.new storage objSize slotCount).places = [] := by
  rw [places, new, Bitmap.taken_clear, List.map_nil]

theorem sound_new (storage : Slice) (c slotCount : Nat) :
    (Bucket.new storage (2 ^ c) slotCount).Sound c where
  objSize := rfl
  packed := Bitmap.packed_clear slotCount
  usedCount := by
    rw [new, Bitmap.taken_clear]
    rfl

theorem slotAddr_ok (h : b.slotAddr slot = .ok addr) : addr = (b.place slot).addr := by
  obtain ⟨offset, hmul, rfl⟩ := Fault.map_ok.1 h
  simp only [Word.mul] at hmul
  split at hmul
  · cases hmul
    rfl
  · cases hmul

/-- The lowest free slot is taken. -/
theorem takeSlot_eq_some (h : b.takeSlot = .ok (some (addr, b'))) :
    ∃ slot slots, b.slots.firstClear = some slot ∧ (b.slots.set slot).result = .ok slots ∧
      addr = (b.place slot).addr ∧ b' = { b with slots, usedCount := b.usedCount + 1 } := by
  simp only [takeSlot] at h
  cases hfirst : b.slots.firstClear with
  | none => simp [hfirst, Fault.pure_ok] at h
  | some slot =>
    simp only [hfirst] at h
    obtain ⟨slots, hset, h⟩ := Fault.bind_ok.1 h
    obtain ⟨usedCount, hadd, h⟩ := Fault.bind_ok.1 h
    obtain ⟨addr', haddr, h⟩ := Fault.bind_ok.1 h
    simp only [Fault.pure_ok, Option.some.injEq, Prod.mk.injEq] at h
    obtain ⟨rfl, rfl⟩ := h
    obtain ⟨_, rfl⟩ := Word.add_eq_ok_iff.1 hadd
    exact ⟨slot, slots, rfl, hset, slotAddr_ok haddr, rfl⟩

theorem takeSlot_shape (h : b.takeSlot = .ok (some (addr, b'))) : SameShape b b' := by
  obtain ⟨slot, slots, _, hset, _, rfl⟩ := takeSlot_eq_some h
  exact ⟨rfl, rfl, Bitmap.length_set hset⟩

theorem releaseSlot_shape (h : b.releaseSlot slot = .ok b') : SameShape b b' := by
  simp only [releaseSlot] at h
  obtain ⟨slots, hunset, h⟩ := Fault.bind_ok.1 h
  obtain ⟨usedCount, _, h⟩ := Fault.bind_ok.1 h
  rw [Fault.pure_ok.1 h]
  exact ⟨rfl, rfl, Bitmap.length_unset hunset⟩

/-- A slot that is taken was free, and only its bit changes. -/
theorem takeSlot_ok (hb : b.Sound c) (h : b.takeSlot = .ok (some (addr, b'))) :
    b'.Sound c ∧ ∃ slot, slot < b.slots.length ∧ b.slots.get slot = false ∧
      addr = (b.place slot).addr ∧ b'.places.Perm (b.place slot :: b.places) := by
  have hshape := takeSlot_shape h
  obtain ⟨slot, slots, hfirst, hset, haddr, rfl⟩ := takeSlot_eq_some h
  obtain ⟨hlt, hget, _⟩ := hb.packed.firstClear_eq_some_iff.1 hfirst
  have htaken := Bitmap.taken_set hb.packed hset hget
  refine ⟨⟨hb.objSize, hb.packed.set hset, ?_⟩, slot, hlt, hget, haddr, ?_⟩
  · simp only
    rw [htaken.length_eq, List.length_cons, hb.usedCount]
  · rw [places, hshape.place]
    exact htaken.map b.place

/-- Giving back a taken slot clears its bit, and only that. -/
theorem releaseSlot_ok (hb : b.Sound c) (hslot : b.slots.get slot = true)
    (h : b.releaseSlot slot = .ok b') :
    b'.Sound c ∧ b.places.Perm (b.place slot :: b'.places) := by
  have hshape := releaseSlot_shape h
  simp only [releaseSlot] at h
  obtain ⟨slots, hunset, h⟩ := Fault.bind_ok.1 h
  obtain ⟨usedCount, hsub, h⟩ := Fault.bind_ok.1 h
  obtain rfl := Fault.pure_ok.1 h
  obtain ⟨_, rfl⟩ := Word.sub_eq_ok_iff.1 hsub
  have htaken := Bitmap.taken_unset hb.packed hunset hslot
  refine ⟨⟨hb.objSize, hb.packed.unset hunset, ?_⟩, ?_⟩
  · simp only
    rw [hb.usedCount, htaken.length_eq, List.length_cons, Nat.add_sub_cancel]
  · rw [places, places, hshape.place]
    exact htaken.map b.place

/-- A bucket without used slots has no places. -/
theorem Sound.places_eq_nil (hb : b.Sound c) (h : b.usedCount = 0) : b.places = [] := by
  rw [hb.usedCount, List.length_eq_zero_iff] at h
  rw [places, h, List.map_nil]

/-! ### Looking up an address -/

/-- The slot that is found starts at the address and is taken; if none is found, no taken slot
starts there. -/
theorem liveSlot_ok (hpos : 0 < b.objSize) {found : Option Nat} (h : b.liveSlot addr = .ok found) :
    (∃ slot, found = some slot ∧ b.slots.get slot = true ∧ (b.place slot).addr = addr) ∨
      found = none ∧ ∀ place ∈ b.places, place.addr ≠ addr := by
  simp only [liveSlot] at h
  obtain ⟨offset, hsub, h⟩ := Fault.bind_ok.1 h
  obtain ⟨hle, rfl⟩ := Word.sub_eq_ok_iff.1 hsub
  by_cases hmod : (addr - b.storage.addr) % b.objSize ≠ 0
  · rw [if_pos hmod] at h
    refine .inr ⟨Fault.pure_ok.1 h, fun place hp heq => hmod ?_⟩
    obtain ⟨slot, _, rfl⟩ := mem_places.1 hp
    rw [← heq, place, Nat.add_sub_cancel_left, Nat.mul_mod_left]
  · rw [if_neg hmod] at h
    have hdiv : (addr - b.storage.addr) / b.objSize * b.objSize = addr - b.storage.addr :=
      Nat.div_mul_cancel (Nat.dvd_of_mod_eq_zero (Decidable.not_not.1 hmod))
    by_cases hget : b.slots.get ((addr - b.storage.addr) / b.objSize) = true
    · simp only [hget, if_true] at h
      refine .inl ⟨_, Fault.pure_ok.1 h, hget, ?_⟩
      rw [place, hdiv]
      exact Nat.add_sub_cancel' hle
    · simp only [hget, Bool.false_eq_true, if_false] at h
      refine .inr ⟨Fault.pure_ok.1 h, fun place hp heq => hget ?_⟩
      obtain ⟨slot, hslot, rfl⟩ := mem_places.1 hp
      rw [← heq, place, Nat.add_sub_cancel_left, Nat.mul_div_cancel _ hpos]
      exact hslot

/-- The bucket that is found contains the address; if none is found, no bucket does. -/
theorem findContaining_ok {index : Nat} {found : Option (Nat × Bucket)}
    (h : findContaining addr bs index = .ok found) :
    (∃ i b, found = some (index + i, b) ∧ bs[i]? = some b ∧ b.storage.Has addr) ∨
      found = none ∧ ∀ b ∈ bs, ¬ b.storage.Has addr := by
  induction bs generalizing index with
  | nil => exact .inr ⟨Fault.pure_ok.1 h, by simp⟩
  | cons first bs ih =>
    rw [findContaining] at h
    obtain ⟨inside, hinside, h⟩ := Fault.bind_ok.1 h
    have hiff := Slice.contains_ok hinside
    cases inside with
    | true =>
      simp only [if_true] at h
      exact .inl ⟨0, first, Fault.pure_ok.1 h, rfl, hiff.1 rfl⟩
    | false =>
      simp only [Bool.false_eq_true, if_false] at h
      have hnot : ¬ first.storage.Has addr := fun hhas => by simpa using hiff.2 hhas
      rcases ih h with ⟨i, b, rfl, hb, hhas⟩ | ⟨rfl, hall⟩
      · refine .inl ⟨i + 1, b, ?_, hb, hhas⟩
        rw [Nat.add_assoc, Nat.add_comm 1]
      · exact .inr ⟨rfl, List.forall_mem_cons.2 ⟨hnot, hall⟩⟩

end Bucket
end AllocChain
