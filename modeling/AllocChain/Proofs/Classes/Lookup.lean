import AllocChain.Proofs.Classes.Change

/-!
The look-ups of a table give an answer, and the right one. On a sound table whose buckets do not
wrap round every address can be looked up (`owner_returns`): an owner is found exactly where its
place starts (`owner_of_spans`), and nothing anywhere else (`owner_of_stranger`). A slot that the
owner names can be given back (`Bucket.releaseSlot_returns`), and a bucket that is not full has a
slot to take (`Bucket.takeSlot_returns`).
-/

namespace AllocChain

theorem Fault.map_eq_ok {α γ : Type} {x : Except Fault α} {a : α} (f : α → γ) (h : x = .ok a) :
    f <$> x = .ok (f a) := by
  rw [h]
  rfl

theorem Word.mul_of_lt {a b : Nat} (h : a * b < wordLimit) : Word.mul a b = .ok (a * b) :=
  if_pos h

/-- Whether a slice that does not wrap round contains an address can always be told. -/
theorem Slice.contains_of_bounded {s : Slice} (h : s.Bounded) (addr : Nat) :
    s.contains addr = .ok (decide (s.Has addr)) :=
  Slice.contains_of_lt h addr

namespace Bucket

variable {b : Bucket} {bs : List Bucket} {c slot addr : Nat}

/-- Giving back a taken slot gives a bucket with that bit cleared and one slot less in use. -/
theorem releaseSlot_returns (hb : b.Sound c) (hslot : b.slots.get slot = true) :
    ∃ b', b.releaseSlot slot = .ok b' ∧
      (∀ j, b'.slots.get j = (decide (j ≠ slot) && b.slots.get j)) ∧
      b'.usedCount + 1 = b.usedCount := by
  obtain ⟨slots, hunset⟩ := Bitmap.unset_returns (Bitmap.lt_of_get hslot)
  have hpos : 1 ≤ b.usedCount := by
    rw [hb.usedCount]
    exact List.length_pos_of_mem (Bitmap.mem_taken.2 hslot)
  refine ⟨{ b with slots, usedCount := b.usedCount - 1 }, ?_, Bitmap.get_unset hb.packed hunset,
    Nat.sub_add_cancel hpos⟩
  simp only [releaseSlot]
  rw [hunset, Word.sub_of_le hpos]
  rfl

/-- A bucket that is not full and whose slots can be numbered and measured has a slot to take. -/
theorem takeSlot_returns (hb : b.Sound c) (hroom : b.usedCount < b.slots.length)
    (hsize : b.slots.length * b.objSize < wordLimit) :
    ∃ addr b', b.takeSlot = .ok (some (addr, b')) := by
  cases hfirst : b.slots.firstClear with
  | none =>
    have hfull : b.slots.taken.length = b.slots.length := by
      rw [Bitmap.taken, List.filter_eq_self.2, List.length_range]
      intro i hi
      exact hb.packed.firstClear_eq_none_iff.1 hfirst i (List.mem_range.1 hi)
    rw [hb.usedCount, hfull] at hroom
    exact absurd hroom (Nat.lt_irrefl _)
  | some slot =>
    obtain ⟨hlt, _, _⟩ := hb.packed.firstClear_eq_some_iff.1 hfirst
    obtain ⟨slots, hset⟩ := Bitmap.set_returns hlt
    have hlen : b.slots.length ≤ b.slots.length * b.objSize :=
      Nat.le_mul_of_pos_right _ hb.objSize_pos
    have hcount : b.usedCount + 1 < wordLimit := by omega
    have hplace : slot * b.objSize < wordLimit :=
      Nat.lt_of_le_of_lt (Nat.mul_le_mul_right _ (Nat.le_of_lt hlt)) hsize
    have haddr : b.slotAddr slot = .ok (b.storage.addr + slot * b.objSize) :=
      Fault.map_eq_ok _ (Word.mul_of_lt hplace)
    refine ⟨b.storage.addr + slot * b.objSize, { b with slots, usedCount := b.usedCount + 1 }, ?_⟩
    simp only [takeSlot, hfirst]
    rw [hset, Word.add_of_lt hcount, haddr]
    rfl

theorem liveSlot_returns (h : b.storage.addr ≤ addr) : ∃ found, b.liveSlot addr = .ok found := by
  simp only [liveSlot, Word.sub_of_le h]
  by_cases hmod : (addr - b.storage.addr) % b.objSize ≠ 0
  · exact ⟨none, if_pos hmod⟩
  · exact ⟨_, if_neg hmod⟩

theorem findContaining_returns (h : ∀ b ∈ bs, b.storage.Bounded) (addr index : Nat) :
    ∃ found, findContaining addr bs index = .ok found := by
  induction bs generalizing index with
  | nil => exact ⟨none, rfl⟩
  | cons b bs ih =>
    obtain ⟨hb, hbs⟩ := List.forall_mem_cons.1 h
    rw [findContaining, Slice.contains_of_bounded hb]
    by_cases hhas : b.storage.Has addr
    · exact ⟨some (index, b), by simp [hhas, bind, Except.bind, pure, Except.pure]⟩
    · obtain ⟨found, hfound⟩ := ih hbs (index + 1)
      exact ⟨found, by simpa [hhas, bind, Except.bind] using hfound⟩

end Bucket

namespace GeneralPurpose

variable {g : GeneralPurpose} {c i k addr : Nat} {bs : List Bucket} {b : Bucket} {o : Owner}
  {span : Slice}

theorem class_lt (hc : g.classes.toList[c]? = some bs) : c < classCount := by
  have hlt := (List.getElem?_eq_some_iff.1 hc).1
  rwa [Vector.length_toList] at hlt

theorem class_returns (hc : c < classCount) : ∃ bs, g.classes.toList[c]? = some bs := by
  have hlt : c < g.classes.toList.length := by
    rw [Vector.length_toList]
    exact hc
  exact ⟨_, List.getElem?_eq_getElem hlt⟩

theorem Sound.lt_of_mem_ones (hs : g.Sound) (hc : c ∈ g.occupied.ones) : c < classCount := by
  obtain ⟨bs, hbs, _⟩ := hs.occupied.1 (BitSet.mem_ones.1 hc)
  exact class_lt hbs

theorem insert_returns (hc : g.classes.toList[c]? = some bs) :
    ∃ occupied, (g.occupied.insert c).result = .ok occupied :=
  BitSet.change_returns (Nat.lt_of_lt_of_le (class_lt hc) (by decide))

theorem erase_returns (hc : g.classes.toList[c]? = some bs) :
    ∃ occupied, (g.occupied.erase c).result = .ok occupied :=
  BitSet.change_returns (Nat.lt_of_lt_of_le (class_lt hc) (by decide))

theorem findBucket_returns {cs : List Nat} (hcs : ∀ c ∈ cs, c < classCount)
    (hbound : ∀ b ∈ g.buckets, b.storage.Bounded) (addr : Nat) :
    ∃ found, g.findBucket addr cs = .ok found := by
  induction cs with
  | nil => exact ⟨none, rfl⟩
  | cons c cs ih =>
    obtain ⟨hc, hrest⟩ := List.forall_mem_cons.1 hcs
    obtain ⟨bs, hbs⟩ := class_returns (g := g) hc
    have hrow : ∀ b ∈ bs, b.storage.Bounded := by
      intro b hb
      obtain ⟨i, hi⟩ := List.mem_iff_getElem?.1 hb
      exact hbound b (mem_buckets.2 ⟨c, i, bs, hbs, hi⟩)
    obtain ⟨found, hfound⟩ := Bucket.findContaining_returns hrow addr 0
    rw [findBucket, bucketsOf_ok.2 hbs]
    simp only [bind, Except.bind, hfound]
    cases found with
    | none => exact ih hrest
    | some found => exact ⟨_, rfl⟩

/-- Every address can be looked up. -/
theorem owner_returns (hs : g.Sound) (hbound : ∀ b ∈ g.buckets, b.storage.Bounded) (addr : Nat) :
    ∃ found, g.owner addr = .ok found := by
  obtain ⟨found, hfind⟩ :=
    findBucket_returns (fun c hc => hs.lt_of_mem_ones hc) hbound addr
  simp only [owner, bind, Except.bind, hfind]
  rcases findBucket_ok hfind with ⟨c, i, bs, b, rfl, _, _, hin⟩ | ⟨rfl, _⟩
  · obtain ⟨slot, hlive⟩ := Bucket.liveSlot_returns hin.1
    simp only [hlive]
    exact ⟨_, rfl⟩
  · exact ⟨_, rfl⟩

/-- An owner is found where its place starts. -/
theorem owner_of_spans (hs : g.Sound) (hp : g.Spread)
    (hbound : ∀ b ∈ g.buckets, b.storage.Bounded) (ho : g.Spans o span) :
    g.owner span.addr = .ok (some o) := by
  obtain ⟨found, hfound⟩ := owner_returns hs hbound span.addr
  have hhas := Slice.has_addr (hp.pos hs (mem_places.2 ⟨o, ho⟩))
  cases found with
  | none => exact absurd rfl (owner_none hs hp hfound (mem_places.2 ⟨o, ho⟩))
  | some o' =>
    obtain ⟨span', ho', haddr⟩ := owner_spans hs hfound
    have hhas' := Slice.has_addr (hp.pos hs (mem_places.2 ⟨o', ho'⟩))
    rw [haddr] at hhas'
    rw [hfound, ho'.eq_of_has hp ho hhas' hhas]

/-- Nothing is found where no place starts. -/
theorem owner_of_stranger (hs : g.Sound) (hbound : ∀ b ∈ g.buckets, b.storage.Bounded)
    (hnone : ∀ span ∈ g.places, span.addr ≠ addr) : g.owner addr = .ok none := by
  obtain ⟨found, hfound⟩ := owner_returns hs hbound addr
  cases found with
  | none => exact hfound
  | some o =>
    obtain ⟨span, ho, haddr⟩ := owner_spans hs hfound
    exact absurd haddr (hnone span (mem_places.2 ⟨o, ho⟩))

end GeneralPurpose
end AllocChain
