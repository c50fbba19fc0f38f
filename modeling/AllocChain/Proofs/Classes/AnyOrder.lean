import Mathlib.Data.Set.Insert
import AllocChain.Proofs.Classes.Custody
import AllocChain.Proofs.Classes.Release
import AllocChain.Proofs.Classes.Shape

/-!
Blocks that are freed in any order. Buckets go from the middle of their class and large blocks are
swapped out of their list, so positions shift with every block; but what is left of a table depends
only on the addresses that were freed. A bucket loses the slots that start there (`Bucket.Thinned`),
the buckets that have slots left keep their order (`Bucket.Remain`), and the large blocks that start
elsewhere stay (`Left`). A table is known by that, up to the order of the large blocks, and so is
what was given back behind.
-/

namespace AllocChain

namespace Bucket

variable {b x x' y : Bucket} {bs xs ys : List Bucket} {gone : Set Nat} {c i k addr : Nat}

/-- All taken slots start at one of the addresses. -/
def Spent (gone : Set Nat) (b : Bucket) : Prop :=
  ∀ slot, b.slots.get slot = true → (b.place slot).addr ∈ gone

/-- `x` is the bucket `b` without the slots that start at one of the addresses. -/
structure Thinned (gone : Set Nat) (b x : Bucket) : Prop where
  shape : b.SameShape x
  bits : ∀ slot, x.slots.get slot = true ↔
    b.slots.get slot = true ∧ (b.place slot).addr ∉ gone

/-- What remains of a row of buckets without the slots that start at one of the addresses. -/
inductive Remain (gone : Set Nat) : List Bucket → List Bucket → Prop
  | nil : Remain gone [] []
  | spent {b : Bucket} {bs xs : List Bucket} : b.Spent gone → Remain gone bs xs →
      Remain gone (b :: bs) xs
  | kept {b x : Bucket} {bs xs : List Bucket} : b.Thinned gone x → ¬ b.Spent gone →
      Remain gone bs xs → Remain gone (b :: bs) (x :: xs)

/-- No taken slot of `b` starts where one of `y` does. -/
def Apart (b y : Bucket) : Prop := ∀ j k, b.slots.get j = true → y.slots.get k = true →
  (b.place j).addr ≠ (y.place k).addr

theorem place_addr_inj {j : Nat} (hpos : 0 < b.objSize) :
    (b.place j).addr = (b.place k).addr ↔ j = k := by
  simp only [place, Nat.add_left_cancel_iff]
  exact Nat.mul_left_inj (Nat.ne_of_gt hpos)

/-! ### Single buckets -/

/-- If one slot is in use, it is that one. -/
theorem Sound.eq_of_used_one {j : Nat} (hb : b.Sound c) (h : b.usedCount = 1)
    (hj : b.slots.get j = true) (hk : b.slots.get k = true) : j = k := by
  rw [hb.usedCount] at h
  obtain ⟨only, honly⟩ := List.length_eq_one_iff.1 h
  have heq : ∀ {slot}, b.slots.get slot = true → slot = only := fun hslot => by
    simpa [honly] using Bitmap.mem_taken.2 hslot
  rw [heq hj, heq hk]

theorem Spent.insert (h : b.Spent gone) (addr : Nat) : b.Spent (insert addr gone) :=
  fun slot hslot => .inr (h slot hslot)

/-- A bucket that a sound table has is known by what was thinned out of which bucket. -/
theorem Thinned.unique (hx : b.Thinned gone x) (hy : b.Thinned gone y) (hsx : x.Sound c)
    (hsy : y.Sound c) : x = y := by
  have hslots : x.slots = y.slots :=
    hsx.packed.ext hsy.packed (hx.shape.length.trans hy.shape.length.symm)
      fun slot => Bool.eq_iff_iff.2 ((hx.bits slot).trans (hy.bits slot).symm)
  have hused : x.usedCount = y.usedCount := by rw [hsx.usedCount, hsy.usedCount, hslots]
  have hstorage : x.storage = y.storage := hx.shape.storage.trans hy.shape.storage.symm
  have hobjSize : x.objSize = y.objSize := hx.shape.objSize.trans hy.shape.objSize.symm
  obtain ⟨_, _, _, _⟩ := x
  obtain ⟨_, _, _, _⟩ := y
  simp only at hslots hused hstorage hobjSize
  rw [hslots, hused, hstorage, hobjSize]

theorem Thinned.spent_iff (h : b.Thinned gone x) :
    b.Spent gone ↔ ∀ slot, x.slots.get slot = false := by
  constructor
  · intro hspent slot
    refine Bool.eq_false_iff.2 fun hslot => ?_
    obtain ⟨htaken, hleft⟩ := (h.bits slot).1 hslot
    exact hleft (hspent slot htaken)
  · intro hnone slot hslot
    by_contra hleft
    have htaken := (h.bits slot).2 ⟨hslot, hleft⟩
    rw [hnone slot] at htaken
    cases htaken

theorem Thinned.stranger (h : b.Thinned gone x)
    (hnone : ∀ slot, b.slots.get slot = true → (b.place slot).addr ≠ addr) :
    b.Thinned (insert addr gone) x := by
  refine ⟨h.shape, fun slot => (h.bits slot).trans (and_congr_right fun hslot => ?_)⟩
  rw [Set.mem_insert_iff, not_or]
  exact ⟨fun hleft => ⟨hnone slot hslot, hleft⟩, fun hleft => hleft.2⟩

/-- One more slot is released. -/
theorem Thinned.release (h : b.Thinned gone x) (hpos : 0 < b.objSize) (hshape : x.SameShape x')
    (hbits : ∀ j, x'.slots.get j = (decide (j ≠ k) && x.slots.get j)) :
    b.Thinned (insert (b.place k).addr gone) x' := by
  refine ⟨⟨hshape.storage.trans h.shape.storage, hshape.objSize.trans h.shape.objSize,
    hshape.length.trans h.shape.length⟩, fun slot => ?_⟩
  rw [hbits, Bool.and_eq_true, decide_eq_true_iff, h.bits, Set.mem_insert_iff, not_or,
    place_addr_inj hpos]
  exact and_left_comm

/-! ### Rows of buckets -/

namespace Remain

/-- Before an address is gone, all buckets remain that have a slot in use. -/
theorem refl (h : ∀ b ∈ bs, ∃ slot, b.slots.get slot = true) : Remain ∅ bs bs := by
  induction bs with
  | nil => exact .nil
  | cons b bs ih =>
    obtain ⟨⟨slot, hslot⟩, hrest⟩ := List.forall_mem_cons.1 h
    refine .kept ⟨⟨rfl, rfl, rfl⟩, fun slot => ?_⟩ (fun hspent => hspent slot hslot) (ih hrest)
    simp

/-- A row of sound buckets is known by what remains of which row. -/
theorem unique (hx : Remain gone bs xs) (hy : Remain gone bs ys) (hsx : ∀ x ∈ xs, x.Sound c)
    (hsy : ∀ y ∈ ys, y.Sound c) : xs = ys := by
  induction hx generalizing ys with
  | nil =>
    cases hy
    rfl
  | spent hspent _ ih =>
    cases hy with
    | spent _ hy => exact ih hy hsx hsy
    | kept _ hleft _ => exact absurd hspent hleft
  | kept hthin hleft _ ih =>
    cases hy with
    | spent hspent _ => exact absurd hspent hleft
    | kept hthin' _ hy =>
      obtain ⟨hx, hxs⟩ := List.forall_mem_cons.1 hsx
      obtain ⟨hy₁, hys⟩ := List.forall_mem_cons.1 hsy
      rw [hthin.unique hthin' hx hy₁, ih hy hxs hys]

theorem origin (h : Remain gone bs xs) (hx : x ∈ xs) : ∃ b ∈ bs, b.Thinned gone x := by
  induction h with
  | nil => cases hx
  | spent _ _ ih =>
    obtain ⟨b, hb, hthin⟩ := ih hx
    exact ⟨b, List.mem_cons_of_mem _ hb, hthin⟩
  | kept hthin _ _ ih =>
    rcases List.mem_cons.1 hx with rfl | hx
    · exact ⟨_, List.mem_cons_self, hthin⟩
    · obtain ⟨b, hb, hthin⟩ := ih hx
      exact ⟨b, List.mem_cons_of_mem _ hb, hthin⟩

/-- One more address is gone, at which no taken slot starts. -/
theorem stranger (h : Remain gone bs xs)
    (hnone : ∀ b ∈ bs, ∀ slot, b.slots.get slot = true → (b.place slot).addr ≠ addr) :
    Remain (insert addr gone) bs xs := by
  induction h with
  | nil => exact .nil
  | spent hspent _ ih => exact .spent (hspent.insert addr) (ih (List.forall_mem_cons.1 hnone).2)
  | kept hthin hleft _ ih =>
    obtain ⟨hb, hrest⟩ := List.forall_mem_cons.1 hnone
    refine .kept (hthin.stranger hb) (fun hspent => hleft fun slot hslot => ?_) (ih hrest)
    exact (hspent slot hslot).resolve_left (hb slot hslot)

/-- One more slot is released: its bucket has one slot less, or goes if that was its last. -/
theorem release (h : Remain gone bs xs) (hapart : bs.Pairwise Apart)
    (hpos : ∀ b ∈ bs, 0 < b.objSize) (hi : xs[i]? = some x) (hk : x.slots.get k = true)
    (hshape : x.SameShape x')
    (hbits : ∀ j, x'.slots.get j = (decide (j ≠ k) && x.slots.get j)) :
    ((∀ slot, x'.slots.get slot = false) →
      Remain (insert (x.place k).addr gone) bs (xs.eraseIdx i)) ∧
    ((∃ slot, x'.slots.get slot = true) →
      Remain (insert (x.place k).addr gone) bs (xs.set i x')) := by
  induction h generalizing i with
  | nil => simp at hi
  | spent hspent _ ih =>
    obtain ⟨_, hapart⟩ := List.pairwise_cons.1 hapart
    obtain ⟨hgone, hkept⟩ := ih hapart (List.forall_mem_cons.1 hpos).2 hi
    exact ⟨fun hnone => .spent (hspent.insert _) (hgone hnone),
      fun hsome => .spent (hspent.insert _) (hkept hsome)⟩
  | @kept b head bs xs hthin hleft h ih =>
    obtain ⟨hhead, hapart⟩ := List.pairwise_cons.1 hapart
    obtain ⟨hb, hrest⟩ := List.forall_mem_cons.1 hpos
    cases i with
    | zero =>
      obtain rfl : x = head := (Option.some.inj hi).symm
      have hplace := hthin.shape.place
      have htaken := ((hthin.bits k).1 hk).1
      have hnew := hthin.release hb hshape hbits
      have hothers : Remain (insert (x.place k).addr gone) bs xs :=
        h.stranger fun y hy slot hslot => by
          rw [hplace]
          exact (hhead y hy k slot htaken hslot).symm
      rw [← hplace] at hnew
      refine ⟨fun hnone => .spent (hnew.spent_iff.2 hnone) hothers,
        fun ⟨slot, hslot⟩ => .kept hnew (fun hspent => ?_) hothers⟩
      rw [hnew.spent_iff.1 hspent slot] at hslot
      cases hslot
    | succ i =>
      obtain ⟨hgone, hkept⟩ := ih hapart hrest hi
      -- the bucket of the slot comes from one further on
      obtain ⟨y, hy, hthin'⟩ := h.origin (List.mem_of_getElem? hi)
      have hstranger : ∀ slot, b.slots.get slot = true →
          (b.place slot).addr ≠ (x.place k).addr := fun slot hslot => by
        rw [hthin'.shape.place]
        exact hhead y hy slot k hslot ((hthin'.bits k).1 hk).1
      have hnotSpent : ¬ b.Spent (insert (x.place k).addr gone) := fun hspent =>
        hleft fun slot hslot => (hspent slot hslot).resolve_left (hstranger slot hslot)
      exact ⟨fun hnone => .kept (hthin.stranger hstranger) hnotSpent (hgone hnone),
        fun hsome => .kept (hthin.stranger hstranger) hnotSpent (hkept hsome)⟩

end Remain
end Bucket

namespace GeneralPurpose

variable {β : Type} {g g' : GeneralPurpose} {gone : Set Nat} {bs new xs : List Bucket}
  {b x x' : Bucket} {c i k addr : Nat} {o o' : Owner} {span span' mem : Slice}
  {occupied : BitSet 1}

/-! ### Tables -/

/-- `g'` is what is left of the table `g` without the slots and the large blocks that start at one
of the addresses. -/
structure Left (gone : Set Nat) (g g' : GeneralPurpose) : Prop where
  rows {c : Nat} {bs xs : List Bucket} : g.classes.toList[c]? = some bs →
    g'.classes.toList[c]? = some xs → Bucket.Remain gone bs xs
  large {mem : Slice} : mem ∈ g'.large ↔ mem ∈ g.large ∧ mem.addr ∉ gone

theorem Spread.addr_ne (hp : g.Spread) (hs : g.Sound) (ho : g.Spans o span) (ho' : g.Spans o' span')
    (hne : o ≠ o') : span.addr ≠ span'.addr := by
  intro heq
  have hhas := Slice.has_addr (hp.pos hs (mem_places.2 ⟨o, ho⟩))
  have hhas' := Slice.has_addr (hp.pos hs (mem_places.2 ⟨o', ho'⟩))
  rw [← heq] at hhas'
  exact hne (ho.eq_of_has hp ho' hhas hhas')

theorem Spread.apart_row (hp : g.Spread) (hs : g.Sound) (hc : g.classes.toList[c]? = some bs) :
    bs.Pairwise Bucket.Apart := by
  refine List.pairwise_iff_getElem.2 fun i j hi hj hlt k k' hk hk' => ?_
  have hspan : g.Spans (.slot c i k) (bs[i].place k) :=
    ⟨bs, _, hc, List.getElem?_eq_getElem hi, hk, rfl⟩
  have hspan' : g.Spans (.slot c j k') (bs[j].place k') :=
    ⟨bs, _, hc, List.getElem?_eq_getElem hj, hk', rfl⟩
  refine hp.addr_ne hs hspan hspan' fun heq => ?_
  cases heq
  exact Nat.lt_irrefl i hlt

theorem Shaped.exists_taken (h : g.Shaped) (hat : g.At c i b) :
    ∃ slot, b.slots.get slot = true := by
  have hbusy := h.busy hat
  rw [(h.bucket hat).usedCount] at hbusy
  obtain ⟨slot, hslot⟩ := List.exists_mem_of_length_pos hbusy
  exact ⟨slot, Bitmap.mem_taken.1 hslot⟩

namespace Left

theorem refl (h : g.Shaped) : Left ∅ g g := by
  refine ⟨fun {c bs xs} hc hc' => ?_, by simp⟩
  obtain rfl : bs = xs := Option.some.inj (hc.symm.trans hc')
  refine .refl fun b hb => ?_
  obtain ⟨i, hi⟩ := List.mem_iff_getElem?.1 hb
  exact h.exists_taken ⟨bs, hc, hi⟩

theorem slot (h : Left gone g g') (hc' : g'.classes.toList[c]? = some xs) (hx : x ∈ xs)
    (hk : x.slots.get k = true) : ∃ i, g.Spans (.slot c i k) (x.place k) := by
  obtain ⟨bs, hc⟩ := class_returns (g := g) (class_lt hc')
  obtain ⟨b, hb, hthin⟩ := (h.rows hc hc').origin hx
  obtain ⟨i, hi⟩ := List.mem_iff_getElem?.1 hb
  exact ⟨i, bs, b, hc, hi, ((hthin.bits k).1 hk).1, by rw [hthin.shape.place]⟩

/-- A slot goes, and its row is replaced by what remains. -/
theorem setBuckets (h : Left gone g g') (hs : g.Sound) (hp : g.Spread)
    (hspan : g.Spans (.slot c i k) span) (hc' : g'.classes.toList[c]? = some xs)
    (hnew : ∀ bs, g.classes.toList[c]? = some bs →
      Bucket.Remain (insert span.addr gone) bs new) :
    Left (insert span.addr gone) g { g'.setBuckets c new with occupied } := by
  refine ⟨fun {c₁ bs ys} hc₁ hc₁' => ?_, fun {mem} => h.large.trans (and_congr_right ?_)⟩
  · change (g'.setBuckets c new).classes.toList[c₁]? = some ys at hc₁'
    rw [classes_setBuckets, List.getElem?_set] at hc₁'
    by_cases hcc : c = c₁
    · subst hcc
      rw [if_pos rfl, if_pos (List.getElem?_eq_some_iff.1 hc').1, Option.some.injEq] at hc₁'
      rw [← hc₁']
      exact hnew bs hc₁
    · rw [if_neg hcc] at hc₁'
      refine (h.rows hc₁ hc₁').stranger fun b hb slot hslot => ?_
      obtain ⟨j, hj⟩ := List.mem_iff_getElem?.1 hb
      have hother : g.Spans (.slot c₁ j slot) (b.place slot) := ⟨bs, b, hc₁, hj, hslot, rfl⟩
      refine hp.addr_ne hs hother hspan fun heq => ?_
      cases heq
      exact hcc rfl
  · intro hmem
    obtain ⟨j, hj⟩ := List.mem_iff_getElem?.1 hmem
    have hne := hp.addr_ne hs (show g.Spans (.large j) mem from hj) hspan (by simp)
    simp [hne]

/-- A slot goes, and its bucket with it if that was the last one in use. -/
theorem release (h : Left gone g g') (hs : g.Sound) (hp : g.Spread)
    (hc' : g'.classes.toList[c]? = some xs) (hi : xs[i]? = some x) (hk : x.slots.get k = true)
    (hshape : x.SameShape x')
    (hbits : ∀ j, x'.slots.get j = (decide (j ≠ k) && x.slots.get j)) :
    ((∀ slot, x'.slots.get slot = false) → ∀ occupied,
      Left (insert (x.place k).addr gone) g { g'.setBuckets c (xs.eraseIdx i) with occupied }) ∧
    ((∃ slot, x'.slots.get slot = true) →
      Left (insert (x.place k).addr gone) g (g'.setBuckets c (xs.set i x'))) := by
  obtain ⟨i', hspan⟩ := h.slot hc' (List.mem_of_getElem? hi) hk
  have hrow := fun bs (hc : g.classes.toList[c]? = some bs) =>
    (h.rows hc hc').release (hp.apart_row hs hc) (fun b hb => (hs.buckets hc b hb).objSize_pos) hi
      hk hshape hbits
  exact ⟨fun hnone _ => h.setBuckets hs hp hspan hc' fun bs hc => (hrow bs hc).1 hnone,
    fun hsome => h.setBuckets hs hp hspan hc' fun bs hc => (hrow bs hc).2 hsome⟩

theorem swapRemove (h : Left gone g g') (hs : g.Sound) (hp : g.Spread)
    (hnodup : g'.large.Nodup) (hi : g'.large[i]? = some mem) :
    Left (insert mem.addr gone) g { g' with large := swapRemove g'.large i } := by
  have hperm := swapRemove_perm hi
  obtain ⟨j, hj⟩ := List.mem_iff_getElem?.1 (h.large.1 (List.mem_of_getElem? hi)).1
  have hspan : g.Spans (.large j) mem := hj
  refine ⟨fun {c bs ys} hc hc' => (h.rows hc hc').stranger fun b hb slot hslot => ?_,
    fun {other} => ?_⟩
  · obtain ⟨i', hi'⟩ := List.mem_iff_getElem?.1 hb
    have hslot' : g.Spans (.slot c i' slot) (b.place slot) := ⟨bs, b, hc, hi', hslot, rfl⟩
    exact hp.addr_ne hs hslot' hspan (by simp)
  · have hnew : mem ∉ AllocChain.swapRemove g'.large i :=
      (List.nodup_cons.1 (hperm.nodup_iff.1 hnodup)).1
    constructor
    · intro hother
      obtain ⟨hthere, hleft⟩ := h.large.1 (hperm.mem_iff.2 (List.mem_cons_of_mem _ hother))
      obtain ⟨j', hj'⟩ := List.mem_iff_getElem?.1 hthere
      refine ⟨hthere, fun hgone => hgone.elim (fun haddr => ?_) hleft⟩
      have hspan' : g.Spans (.large j') other := hj'
      refine hp.addr_ne hs hspan' hspan (fun heq => hnew ?_) haddr
      cases heq
      rwa [Option.some.inj (hj.symm.trans hj')]
    · rintro ⟨hthere, hleft⟩
      rw [Set.mem_insert_iff, not_or] at hleft
      refine (List.mem_cons.1 (hperm.mem_iff.1 (h.large.2 ⟨hthere, hleft.2⟩))).resolve_left ?_
      rintro rfl
      exact hleft.1 rfl

/-- Tables that are left of the same table without the same addresses are the same, but for the
order of their large blocks. -/
theorem unique {g₁ g₂ : GeneralPurpose} (h₁ : Left gone g g₁) (h₂ : Left gone g g₂) (hs₁ : g₁.Sound)
    (hs₂ : g₂.Sound) (hnodup₁ : g₁.large.Nodup) (hnodup₂ : g₂.large.Nodup) :
    g₁.classes = g₂.classes ∧ g₁.occupied = g₂.occupied ∧ g₁.large.Perm g₂.large := by
  have hclasses : g₁.classes = g₂.classes := by
    refine Vector.toList_inj.1 (List.ext_getElem? fun c => ?_)
    by_cases hlt : c < classCount
    · obtain ⟨bs, hc⟩ := class_returns (g := g) hlt
      obtain ⟨xs, hc₁⟩ := class_returns (g := g₁) hlt
      obtain ⟨ys, hc₂⟩ := class_returns (g := g₂) hlt
      rw [hc₁, hc₂, (h₁.rows hc hc₁).unique (h₂.rows hc hc₂) (hs₁.buckets hc₁) (hs₂.buckets hc₂)]
    · have hge := Nat.le_of_not_lt hlt
      rw [List.getElem?_eq_none (by simpa using hge), List.getElem?_eq_none (by simpa using hge)]
  refine ⟨hclasses, BitSet.ext_test fun c => Bool.eq_iff_iff.2 ?_, ?_⟩
  · rw [hs₁.occupied, hs₂.occupied, hclasses]
  · exact (List.perm_ext_iff_of_nodup hnodup₁ hnodup₂).2 fun mem => h₁.large.trans h₂.large.symm

end Left

/-! ### Freeing block after block -/

variable {B : Allocator β} {holds : List Slice → (List Call × β) × Machine → Prop}
  {s t u : (GeneralPurpose × List Call × β) × Machine} {block : Slice} {out : List Slice}
  {gone' : Set Nat}

theorem Kept.held_nodup (hB : Supply B.traced Slice.Meets holds) (h : Kept holds out s)
    (hshaped : s.1.1.Shaped) : s.1.1.held.Nodup := by
  refine .of_map (·.addr) (addrs_nodup_of_apart (hB.apart h.backed) fun mem hmem => ?_)
  rcases List.mem_append.1 hmem with hstorage | hlarge
  · obtain ⟨b, hb, rfl⟩ := List.mem_map.1 hstorage
    obtain ⟨c, i, hat⟩ := mem_buckets_at.1 hb
    obtain ⟨slot, hslot⟩ := hshaped.exists_taken hat
    have hpos := (hshaped.bucket hat).objSize_pos
    exact Nat.lt_of_lt_of_le (Nat.mul_pos (Nat.zero_lt_of_lt (Bitmap.lt_of_get hslot)) hpos)
      (h.roomy b hb).room
  · exact h.nonempty mem hlarge

/-- `t` is what is left of `s` after the blocks at the addresses were freed. Those of `out` are
still there, and what `t` does not stand on any more was given back, and nothing else was asked. -/
structure Freeing (holds : List Slice → (List Call × β) × Machine → Prop)
    (s t : (GeneralPurpose × List Call × β) × Machine) (gone : Set Nat) (out : List Slice) :
    Prop where
  kept : Kept holds out t
  shaped : t.1.1.Shaped
  left : Left gone s.1.1 t.1.1
  calls : ∃ freed, t.1.2.1 = s.1.2.1 ++ freed.map .free ∧ s.1.1.held.Perm (freed ++ t.1.1.held)

namespace Freeing

theorem extend (freed : List Slice) (h : Freeing holds s t gone (block :: out))
    (hk : Kept holds out u) (hshaped : u.1.1.Shaped) (hleft : Left gone' s.1.1 u.1.1)
    (hcalls : u.1.2.1 = t.1.2.1 ++ freed.map .free)
    (hheld : t.1.1.held.Perm (freed ++ u.1.1.held)) : Freeing holds s u gone' out := by
  obtain ⟨before, hbefore, hp⟩ := h.calls
  refine ⟨hk, hshaped, hleft, before ++ freed, ?_, ?_⟩
  · rw [hcalls, hbefore, List.map_append, List.append_assoc]
  · rw [List.append_assoc]
    exact hp.trans (hheld.append_left before)

theorem large_nodup (hB : Supply B.traced Slice.Meets holds) (h : Freeing holds s t gone out) :
    t.1.1.large.Nodup :=
  (h.kept.held_nodup hB h.shaped).sublist (List.sublist_append_right _ _)

/-- One more block is freed. -/
theorem step (hB : Supply B.traced Slice.Meets holds) (hs : s.1.1.Sound) (hp : s.1.1.Spread)
    (h : Freeing holds s t gone (block :: out)) (hn : block.isNull = false)
    (hf : free B.traced block t = .ok ((), u)) :
    Freeing holds s u (insert block.addr gone) out := by
  have hkept := h.kept.free_self hB hn hf
  have hshaped := free_shaped h.shaped hf
  obtain ⟨o, span, howner, ho, hst⟩ := h.kept.found hB List.mem_cons_self
  rw [hst.addr]
  cases o with
  | slot c i k =>
    obtain ⟨bs, b, b', hfrees⟩ := h.kept.freesSlot hB hn ho hst.addr.symm
    obtain ⟨bs₁, b₁, hc, hi, hk, rfl⟩ := ho
    obtain rfl : bs₁ = bs := Option.some.inj (hc.symm.trans hfrees.row)
    obtain rfl : b₁ = b := Option.some.inj (hi.symm.trans hfrees.bucket)
    have hsound := (h.shaped.bucket ⟨bs₁, hc, hi⟩).toSound
    by_cases hlast : b₁.usedCount = 1
    · obtain ⟨occupied, _, heq⟩ := hfrees.emptied hlast
      obtain ⟨v, hbehind, rfl⟩ := passing_ok.1 (heq.symm.trans hf)
      obtain ⟨_, _, rfl⟩ := Act.noting_ok.1 hbehind
      have hnone : ∀ slot, b'.slots.get slot = false := fun slot => by
        rw [hfrees.bits, Bool.and_eq_false_iff, decide_eq_false_iff_not, Decidable.not_not]
        cases hslot : b₁.slots.get slot with
        | false => exact .inr rfl
        | true => exact .inl (hsound.eq_of_used_one hlast hslot hk)
      exact h.extend [b₁.storage] hkept hshaped
        ((h.left.release hs hp hc hi hk hfrees.shape hfrees.bits).1 hnone occupied) rfl
        (held_eraseIdx hc hi)
    · obtain rfl := (Prod.mk.inj (Except.ok.inj (hf.symm.trans (hfrees.kept hlast)))).2
      have hsome : ∃ slot, b'.slots.get slot = true :=
        hshaped.exists_taken ⟨_, row_setBuckets hc, List.getElem?_set_self
          (List.getElem?_eq_some_iff.1 hi).1⟩
      exact h.extend [] hkept hshaped
        ((h.left.release hs hp hc hi hk hfrees.shape hfrees.bits).2 hsome)
        (List.append_nil _).symm (held_set hc hi hfrees.shape.storage).symm
  | large i =>
    have hi : t.1.1.large[i]? = some span := ho
    obtain ⟨v, hbehind, rfl⟩ := passing_ok.1 ((free_large hn howner hi).symm.trans hf)
    obtain ⟨_, _, rfl⟩ := Act.noting_ok.1 hbehind
    obtain ⟨rest, hall, _, hswap⟩ := held_large hi
    exact h.extend [span] hkept hshaped (h.left.swapRemove hs hp (h.large_nodup hB) hi) rfl
      (hall.trans (hswap.symm.cons span))

/-- Blocks are freed one after the other. -/
theorem run (hB : Supply B.traced Slice.Meets holds) (hs : s.1.1.Sound) (hp : s.1.1.Spread)
    {xs : List Slice} (h : Freeing holds s t gone (xs ++ out)) (hn : ∀ x ∈ xs, x.isNull = false)
    (hf : (allocator B.traced).freeAll xs t = .ok ((), u)) :
    Freeing holds s u (gone ∪ {addr | ∃ x ∈ xs, x.addr = addr}) out := by
  induction xs generalizing t gone with
  | nil =>
    rw [(Act.pure_ok.1 hf).2]
    simpa using h
  | cons x xs ih =>
    obtain ⟨_, v, hfree, hrest⟩ := Act.bind_ok.1 hf
    obtain ⟨hx, hxs⟩ := List.forall_mem_cons.1 hn
    have hgone : gone ∪ {addr | ∃ y ∈ x :: xs, y.addr = addr} =
        insert x.addr gone ∪ {addr | ∃ y ∈ xs, y.addr = addr} := by
      ext addr
      simp only [Set.mem_union, Set.mem_insert_iff, Set.mem_ofPred_eq, List.exists_mem_cons_iff,
        eq_comm, or_left_comm, or_assoc]
    rw [hgone]
    exact ih (h.step hB hs hp hx hfree) hxs hrest

end Freeing

/-- Blocks can be freed one after the other, if what the table stands on can be given back. -/
theorem Freeing.returns (hB : Supply B.traced Slice.Meets holds) (hs : s.1.1.Sound)
    (hp : s.1.1.Spread) {xs : List Slice} (h : Freeing holds s t gone (xs ++ out))
    (hreturns : ∀ {out block v}, holds (block :: out) v →
      ∃ w, B.traced.free block v = .ok ((), w))
    (hn : ∀ x ∈ xs, x.isNull = false) :
    ∃ u, (allocator B.traced).freeAll xs t = .ok ((), u) := by
  induction xs generalizing t gone with
  | nil => exact ⟨t, rfl⟩
  | cons x xs ih =>
    obtain ⟨hx, hxs⟩ := List.forall_mem_cons.1 hn
    obtain ⟨v, hfree⟩ := h.kept.free_returns hB hreturns hx
    obtain ⟨u, hrest⟩ := ih (h.step hB hs hp hx hfree) hxs
    exact ⟨u, Act.bind_ok.2 ⟨(), v, hfree, hrest⟩⟩

/-- A table without blocks is empty. -/
theorem Kept.empty (h : Kept holds [] t) (hshaped : t.1.1.Shaped) :
    (∀ c, t.1.1.bucketCount c = 0) ∧ t.1.1.large = [] ∧ t.1.1.occupied = .empty := by
  have hplaces : t.1.1.places = [] := List.map_eq_nil_iff.1 h.fills.addrs.nil_eq.symm
  have hrows : ∀ {c : Nat} {bs : List Bucket}, t.1.1.classes.toList[c]? = some bs → bs = [] := by
    intro c bs hc
    refine List.eq_nil_iff_forall_not_mem.2 fun b hb => ?_
    obtain ⟨i, hi⟩ := List.mem_iff_getElem?.1 hb
    obtain ⟨slot, hslot⟩ := hshaped.exists_taken ⟨bs, hc, hi⟩
    have hspan : t.1.1.Spans (.slot c i slot) (b.place slot) := ⟨bs, b, hc, hi, hslot, rfl⟩
    have hmem := mem_places.2 ⟨_, hspan⟩
    rw [hplaces] at hmem
    cases hmem
  refine ⟨fun c => ?_, (List.append_eq_nil_iff.1 hplaces).2, BitSet.ext_test fun c => ?_⟩
  · rw [bucketCount, List.getD_eq_getElem?_getD]
    cases hc : t.1.1.classes.toList[c]? with
    | none => rfl
    | some bs => rw [hrows hc, Option.getD_some, List.length_nil]
  · rw [BitSet.test_empty]
    refine Bool.eq_false_iff.2 fun hmark => ?_
    obtain ⟨bs, hc, hne⟩ := h.sound.occupied.1 hmark
    exact hne (hrows hc)

/-- How the blocks of `xs` are freed, of those that are leased. In whatever order it is done, the
same is left, up to the order of the large blocks, and the same was given back behind, each block
once; if they are all there are, nothing is left. -/
structure AnyOrder (B : Allocator β) (holds : List Slice → β × Machine → Prop)
    (live : List (Lease (GeneralPurpose × List Call × β)))
    (s : (GeneralPurpose × List Call × β) × Machine) (xs : List Slice) : Prop where
  returns : (∀ out block v, holds (block :: out) v → ∃ w, B.free block v = .ok ((), w)) →
    ∃ t, (allocator B.traced).freeAll xs s = .ok ((), t)
  agrees : ∀ ys, xs.Perm ys → ∀ t u, (allocator B.traced).freeAll xs s = .ok ((), t) →
    (allocator B.traced).freeAll ys s = .ok ((), u) →
    (t.1.1.classes = u.1.1.classes ∧ t.1.1.occupied = u.1.1.occupied ∧
      t.1.1.large.Perm u.1.1.large) ∧
    ∃ freed freed' : List Slice, t.1.2.1 = s.1.2.1 ++ freed.map .free ∧
      u.1.2.1 = s.1.2.1 ++ freed'.map .free ∧ freed.Perm freed' ∧ freed.Nodup
  clears : (∀ lease ∈ live, lease.block ∈ xs) → ∀ t,
    (allocator B.traced).freeAll xs s = .ok ((), t) →
    (∀ c, t.1.1.bucketCount c = 0) ∧ t.1.1.large = [] ∧ t.1.1.occupied = .empty

variable {live : List (Lease (GeneralPurpose × List Call × β))} {xs ys : List Slice}

theorem Lodged.split (h : Lodged holds live s) (hnodup : xs.Nodup)
    (hlive : ∀ x ∈ xs, ∃ lease ∈ live, lease.block = x) :
    ∃ rest, Kept holds (xs ++ rest) s ∧ (live.map (·.block)).Perm (xs ++ rest) := by
  have hsub : xs ⊆ live.map (·.block) := by
    intro x hx
    obtain ⟨lease, hl, rfl⟩ := hlive x hx
    exact List.mem_map_of_mem hl
  obtain ⟨front, hfront, hin⟩ := List.subperm_of_subset hnodup hsub
  obtain ⟨rest, hrest⟩ := hin.exists_perm_append
  have hall := hrest.trans (hfront.append_right rest)
  exact ⟨rest, h.kept.perm hall, hall⟩

theorem Lodged.anyOrder {holds : List Slice → β × Machine → Prop}
    (hB : Supply B Slice.Meets (NonNull holds)) (h : Lodged (Traced (NonNull holds)) live s)
    (hshaped : s.1.1.Shaped) (hnodup : xs.Nodup)
    (hlive : ∀ x ∈ xs, ∃ lease ∈ live, lease.block = x) : AnyOrder B holds live s xs := by
  have hT := hB.traced
  have hs := h.kept.sound
  have hp := h.kept.spread hT
  have hn : ∀ x ∈ xs, x.isNull = false := by
    intro x hx
    obtain ⟨lease, hl, rfl⟩ := hlive x hx
    exact Slice.isNull_eq_false.2
      (h.kept.addr_ne_zero hT h.kept.backed.1.2 (List.mem_map_of_mem hl))
  obtain ⟨rest, hkept, hall⟩ := h.split hnodup hlive
  have hstart : ∀ {ys}, xs.Perm ys →
      Freeing (Traced (NonNull holds)) s s ∅ (ys ++ rest) := fun hperm =>
    ⟨hkept.perm (hperm.append_right rest), hshaped, .refl hshaped, [], (List.append_nil _).symm,
      .refl _⟩
  refine ⟨fun hreturns => ?_, fun ys hperm t u ht hu => ?_, fun hevery t ht => ?_⟩
  · refine (hstart (.refl xs)).returns hT hs hp (fun hheld => ?_) hn
    obtain ⟨w, hw⟩ := hreturns _ _ _ hheld.1.1
    exact ⟨_, Act.noting_ok.2 ⟨w, hw, rfl⟩⟩
  · have hgone : {addr | ∃ x ∈ ys, x.addr = addr} = {addr | ∃ x ∈ xs, x.addr = addr} := by
      ext addr
      simp only [Set.mem_ofPred_eq, hperm.mem_iff]
    have hfirst := (hstart (.refl xs)).run hT hs hp hn ht
    have hsecond := (hstart hperm).run hT hs hp (fun x hx => hn x (hperm.mem_iff.2 hx)) hu
    rw [hgone] at hsecond
    have hsame := hfirst.left.unique hsecond.left hfirst.kept.sound hsecond.kept.sound
      (hfirst.large_nodup hT) (hsecond.large_nodup hT)
    obtain ⟨freed, hcalls, hheld⟩ := hfirst.calls
    obtain ⟨freed', hcalls', hheld'⟩ := hsecond.calls
    have hleft : t.1.1.held.Perm u.1.1.held := by
      rw [held, held, buckets, buckets, hsame.1]
      exact hsame.2.2.append_left _
    have hfreed : freed.Perm freed' := (List.perm_append_right_iff t.1.1.held).1
      ((hheld.symm.trans hheld').trans (hleft.symm.append_left freed'))
    have honce := hheld.nodup_iff.1 (h.kept.held_nodup hT hshaped)
    exact ⟨hsame, freed, freed', hcalls, hcalls', hfreed, (List.nodup_append.1 honce).1⟩
  · have hend := (hstart (.refl xs)).run hT hs hp hn ht
    have hrest : rest = [] := by
      refine List.eq_nil_iff_forall_not_mem.2 fun x hx => ?_
      have hmem : x ∈ live.map (·.block) := hall.mem_iff.2 (List.mem_append_right _ hx)
      obtain ⟨lease, hl, rfl⟩ := List.mem_map.1 hmem
      have hdistinct : (live.map (·.block)).Nodup := .of_map (·.addr)
        (h.kept.fills.addrs.nodup_iff.2 (hp.addrs_nodup hs))
      exact (List.nodup_append.1 (hall.nodup_iff.1 hdistinct)).2.2 _ (hevery lease hl) _ hx rfl
    rw [hrest] at hend
    exact hend.kept.empty hend.shaped

end GeneralPurpose

/-- However a client resizes and frees, over any supply of disjoint blocks that answer their
requests, and however often it destroys the allocator: in whatever order some of its blocks are
freed then, the same is left and the same was given back. -/
theorem anyOrder_of_confined {β : Type} {B : Allocator β}
    {holds : List Slice → β × Machine → Prop} {bucketSize : Nat} {b : β} {m : Machine}
    {live : List (Lease (GeneralPurpose × List Call × β))}
    {s : (GeneralPurpose × List Call × β) × Machine} (hB : Supply B Slice.Answers holds)
    (hstart : holds [] (b, m))
    (hrun : Run (GeneralPurpose.allocator B.traced) [GeneralPurpose.destroy B.traced] Confined
      ((GeneralPurpose.new bucketSize, [], b), m) live s)
    {xs : List Slice} (hnodup : xs.Nodup) (hlive : ∀ x ∈ xs, ∃ lease ∈ live, lease.block = x) :
    GeneralPurpose.AnyOrder B holds live s xs := by
  have hmeets : Supply B Slice.Meets (NonNull holds) :=
    (hB.nonNull fun _ _ _ hans => hans.2).mono fun _ _ _ hans => hans.1
  have hlodged := GeneralPurpose.Lodged.of_run hmeets.traced
    (.nil ⟨hstart, fun _ hnone => by cases hnone⟩) hrun
  have hshaped : s.1.1.Shaped := by
    refine (GeneralPurpose.shaped_steady B.traced).run ?_ (.new bucketSize) hrun
    intro x hx u t hu hd
    rw [List.mem_singleton.1 hx] at hd
    rw [(GeneralPurpose.destroy_ok (.blank _) hd trivial).1]
    exact hu.cleared
  exact hlodged.anyOrder hmeets hshaped hnodup hlive

/-- Two buckets of one class, one of another and two large blocks over a fixed region: all of them
can be freed in any order. -/
theorem anyOrder_of_mixed_blocks :
    ∃ live s, Run (GeneralPurpose.allocator Fixed.allocator.traced)
        [GeneralPurpose.destroy Fixed.allocator.traced] Confined
        ((GeneralPurpose.new 64, [], ⟨64, 1024, 0⟩), ⟨.zero, [], []⟩) live s ∧
      live.map (·.block) = [⟨424, 200⟩, ⟨352, 20⟩, ⟨240, 100⟩, ⟨160, 10⟩, ⟨128, 10⟩, ⟨112, 10⟩,
        ⟨96, 10⟩, ⟨80, 10⟩] ∧
      GeneralPurpose.AnyOrder Fixed.allocator (Stacking.Holds Fixed.Kept) live s
        (live.map (·.block)) := by
  have hlast : ((GeneralPurpose.allocator Fixed.allocator.traced).play Confined
      [.alloc 10 8, .alloc 10 8, .alloc 10 8, .alloc 10 8, .alloc 10 8, .alloc 100 16,
        .alloc 20 4, .alloc 200 8] []
      ((GeneralPurpose.new 64, [], ⟨64, 1024, 0⟩), ⟨.zero, [], []⟩)).map (·.1.map (·.block)) =
        some [⟨424, 200⟩, ⟨352, 20⟩, ⟨240, 100⟩, ⟨160, 10⟩, ⟨128, 10⟩, ⟨112, 10⟩, ⟨96, 10⟩,
          ⟨80, 10⟩] := by
    decide +kernel
  obtain ⟨⟨live, s⟩, hplay, hlive⟩ := Option.map_eq_some_iff.1 hlast
  have hrun : Run (GeneralPurpose.allocator Fixed.allocator.traced)
      [GeneralPurpose.destroy Fixed.allocator.traced] Confined _ live s := Run.start.play hplay
  have hnodup : (live.map (·.block)).Nodup := by
    rw [hlive]
    decide
  exact ⟨live, s, hrun, hlive, anyOrder_of_confined Fixed.stacking.contract.supply
    (Fixed.holds_nil (by decide)) hrun hnodup fun x hx => List.mem_map.1 hx⟩

end AllocChain
