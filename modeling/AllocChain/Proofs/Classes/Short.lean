import AllocChain.Proofs.Classes.Lookup
import AllocChain.Proofs.Classes.Regular
import AllocChain.Proofs.Classes.Release
import AllocChain.Proofs.ScriptedCut

/-!
A general-purpose allocator over one that may hand out less than it is asked for. How many slots a
bucket has is reckoned from what was asked for, but what an address belongs to is told by what was
got. So a block that is handed out lies in the storage of its bucket only if its slot ends there,
and is found again only if its slot starts there (`Carved`); a large block is as long as what came
from behind, which may be less than was asked for (`dealt_of_run`). What is too short is never given
back. Only where all that comes from behind is as long as was asked for are all blocks what their
requests say (`Delivered`). `overrun_by_short_blocks` shows blocks of each kind that nobody should
have been given.

Blocks that reach beyond what is outstanding may be written, so the allocator behind has to put up
with that for its books to stay right: `Tolerates` says what its clients may write.
-/

namespace AllocChain

variable {β : Type}

/-- Requests and frees anything, and writes nothing. -/
def Silent {γ : Type} (_live : List (Lease γ)) : Deed → Prop
  | .alloc .. | .free _ => True
  | _ => False

/-- The rules for clients of a general-purpose allocator under which the books of the one behind
stay right: that nothing is written; that only blocks are, when all that comes from behind is as
long and as well aligned as was asked for; or no rule, when the books do not look at the memory. -/
inductive Tolerates (fit : Nat → Nat → Slice → Prop) (holds : List Slice → β × Machine → Prop) :
    (List (Lease (GeneralPurpose × β)) → Deed → Prop) → Prop
  | silence : Tolerates fit holds Silent
  | blocks : (∀ size align block, fit size align block → block.Meets size align) →
      Tolerates fit holds Confined
  | anything : (∀ out b m m', holds out (b, m) → holds out (b, m')) → Tolerates fit holds Unruly

/-- The allocator has handed out the block when it was asked for `size` bytes aligned to `align`, in
a state that its books describe. -/
def Allocator.Answered (B : Allocator β) (holds : List Slice → β × Machine → Prop)
    (size align : Nat) (block : Slice) : Prop :=
  ∃ out s t, holds out s ∧ B.alloc size align s = .ok (.ok block, t)

theorem Allocator.Answered.fits {B : Allocator β} {fit : Nat → Nat → Slice → Prop}
    {holds : List Slice → β × Machine → Prop} {size align : Nat} {block : Slice}
    (h : B.Answered holds size align block) (hB : Ledger B fit holds) : fit size align block := by
  obtain ⟨out, s, t, hh, ha⟩ := h
  exact (hB.alloc hh ha).1

namespace GeneralPurpose

variable {B : Allocator β} {fit : Nat → Nat → Slice → Prop}
  {holds : List Slice → β × Machine → Prop} {s t : (GeneralPurpose × β) × Machine}
  {g : GeneralPurpose} {mem : Slice} {c i k size align : Nat} {b b' : Bucket} {bs : List Bucket}
  {r : Answer}

/-! ### What is found again -/

theorem At.eq_of_has (hd : g.held.Pairwise Slice.Disjoint) {c' i' addr : Nat} (h : g.At c i b)
    (h' : g.At c' i' b') (hhas : b.storage.Has addr) (hhas' : b'.storage.Has addr) :
    c = c' ∧ i = i' ∧ b = b' := by
  obtain ⟨bs, hc, hi⟩ := h
  obtain ⟨bs', hc', hi'⟩ := h'
  by_cases hpos : c = c' ∧ i = i'
  · obtain ⟨rfl, rfl⟩ := hpos
    exact ⟨rfl, rfl, At.unique ⟨bs, hc, hi⟩ ⟨bs', hc', hi'⟩⟩
  · exact absurd hhas' (storage_disjoint_of_apart hd hc hi hc' hi' hpos addr hhas)

theorem findBucket_of_has (hs : g.Sound) (hd : g.held.Pairwise Slice.Disjoint) {addr : Nat}
    {found : Option (Nat × Nat × Bucket)} (hat : g.At c i b) (hhas : b.storage.Has addr)
    (hfind : g.findBucket addr g.occupied.ones = .ok found) : found = some (c, i, b) := by
  rcases findBucket_ok hfind with ⟨c', i', bs', b', rfl, hc', hi', hhas'⟩ | ⟨rfl, hnone⟩
  · obtain ⟨rfl, rfl, rfl⟩ := hat.eq_of_has hd ⟨bs', hc', hi'⟩ hhas hhas'
    rfl
  · obtain ⟨bs, hc, hi⟩ := hat
    have hocc : g.occupied.test c = true :=
      hs.occupied.2 ⟨bs, hc, fun hnil => by simp [hnil] at hi⟩
    exact absurd hhas (hnone c (BitSet.mem_ones.2 hocc) bs hc b (List.mem_of_getElem? hi))

/-- The start of a taken slot is looked up as that slot. -/
theorem liveSlot_place (hb : b.Sound c) (hk : b.slots.get k = true) :
    b.liveSlot (b.place k).addr = .ok (some k) := by
  obtain ⟨found, hlive⟩ := Bucket.liveSlot_returns (b := b) (Nat.le_add_right _ (k * b.objSize))
  have hplace : b.liveSlot (b.place k).addr = .ok found := hlive
  rw [hplace]
  rcases Bucket.liveSlot_ok hb.objSize_pos hplace with ⟨k', rfl, _, heq⟩ | ⟨_, hfree⟩
  · have hmul : k' * b.objSize = k * b.objSize := Nat.add_left_cancel heq
    rw [Nat.eq_of_mul_eq_mul_right hb.objSize_pos hmul]
  · exact absurd rfl (hfree _ (Bucket.mem_places.2 ⟨k, hk, rfl⟩))

/-- A taken slot is found again if and only if it starts in the storage of its bucket. -/
theorem owner_slot_iff (hs : g.Sound) (hd : g.held.Pairwise Slice.Disjoint)
    (hbound : ∀ b ∈ g.buckets, b.storage.Bounded) (hat : g.At c i b)
    (hk : b.slots.get k = true) :
    g.owner (b.place k).addr = .ok (some (.slot c i k)) ↔ k * b.objSize < b.storage.len := by
  have hhas : b.storage.Has (b.place k).addr ↔ k * b.objSize < b.storage.len := by
    simp only [Slice.Has, Bucket.place]
    omega
  rw [← hhas]
  obtain ⟨found, hfind⟩ :=
    findBucket_returns (fun c hc => hs.lt_of_mem_ones hc) hbound (b.place k).addr
  simp only [owner, bind, Except.bind, hfind]
  constructor
  · intro howner
    rcases findBucket_ok hfind with ⟨c', i', bs', b', rfl, hc', hi', hin⟩ | ⟨rfl, _⟩
    · cases hlive : b'.liveSlot (b.place k).addr with
      | error fault => simp [hlive] at howner
      | ok slot =>
        simp only [hlive] at howner
        cases slot with
        | none => cases howner
        | some slot =>
          cases howner
          obtain rfl := hat.unique ⟨bs', hc', hi'⟩
          exact hin
    · cases hlarge : g.large.findIdx? (·.addr == (b.place k).addr) <;>
        simp [hlarge, pure, Except.pure] at howner
  · intro hin
    obtain ⟨bs, hc, hi⟩ := hat
    have hb := hs.buckets hc b (List.mem_of_getElem? hi)
    obtain rfl := findBucket_of_has hs hd ⟨bs, hc, hi⟩ hin hfind
    simp only [liveSlot_place hb hk]
    rfl

/-- A large block that has a byte is found again. -/
theorem owner_large_of_mem (hs : g.Sound) (hd : g.held.Pairwise Slice.Disjoint)
    (hbound : ∀ b ∈ g.buckets, b.storage.Bounded) (hmem : mem ∈ g.large) (hpos : 0 < mem.len) :
    ∃ i, g.owner mem.addr = .ok (some (.large i)) := by
  obtain ⟨found, hfind⟩ := findBucket_returns (fun c hc => hs.lt_of_mem_ones hc) hbound mem.addr
  obtain ⟨_, _, hcross⟩ := List.pairwise_append.1 hd
  simp only [owner, bind, Except.bind, hfind]
  rcases findBucket_ok hfind with ⟨c, i, bs, b, rfl, hc, hi, hin⟩ | ⟨rfl, _⟩
  · have hb : b ∈ g.buckets := mem_buckets.2 ⟨c, i, bs, hc, hi⟩
    exact absurd (Slice.has_addr hpos)
      (hcross b.storage (List.mem_map_of_mem hb) mem hmem mem.addr hin)
  · cases hlarge : g.large.findIdx? (·.addr == mem.addr) with
    | none =>
      have hother := List.findIdx?_eq_none_iff.1 hlarge mem hmem
      simp at hother
    | some i => exact ⟨i, rfl⟩

/-! ### What the buckets stand on -/

/-- Every bucket stands on what the allocator behind has answered when it was asked for all slots of
the bucket. -/
def Furnished (B : Allocator β) (holds : List Slice → β × Machine → Prop) (g : GeneralPurpose) :
    Prop :=
  ∀ b ∈ g.buckets, B.Answered holds (b.slots.length * b.objSize) b.objSize b.storage

namespace Furnished

theorem set (h : Furnished B holds g) (hc : g.classes.toList[c]? = some bs) (hi : bs[i]? = some b)
    (hshape : Bucket.SameShape b b') : Furnished B holds (g.setBuckets c (bs.set i b')) := by
  obtain ⟨others, hall, hset, _⟩ := buckets_at hc hi
  obtain ⟨hb, hothers⟩ := List.forall_mem_cons.1 fun x hx => h x (hall.mem_iff.2 hx)
  intro x hx
  rcases List.mem_cons.1 ((hset b').mem_iff.1 hx) with rfl | hold
  · rw [hshape.length, hshape.objSize, hshape.storage]
    exact hb
  · exact hothers x hold

theorem roomed {found : Except AllocError Nat} (h : Furnished B holds s.1.1)
    (hheld : holds s.1.1.held (s.1.2, s.2)) (hr : Roomed B c s found t) :
    Furnished B holds t.1.1 := by
  cases hr with
  | found _ _ => exact h
  | refused _ => exact h
  | created hc hcall _ =>
    intro x hx
    rcases List.mem_cons.1 ((buckets_append hc _).mem_iff.1 hx) with rfl | hold
    · exact ⟨_, _, _, hheld, hcall⟩
    · exact h x hold

theorem alloc (h : Furnished B holds s.1.1) (hheld : holds s.1.1.held (s.1.2, s.2))
    (ha : GeneralPurpose.alloc B size align s = .ok (r, t)) : Furnished B holds t.1.1 := by
  rcases alloc_ok ha with ⟨_, _, rfl⟩ | ⟨_, _, ⟨c, _, hsmall⟩ | hlarge⟩
  · exact h
  · rcases allocSmall_ok hsmall with
      ⟨_, _, _, hroom⟩ | ⟨_, u, _, _, _, _, _, hroom, hc, hi, htake, _, rfl⟩
    · exact h.roomed hheld hroom
    · exact (h.roomed hheld hroom).set hc hi (Bucket.takeSlot_shape htake)
  · obtain ⟨u, ⟨_, _, _, rfl⟩ | ⟨_, _, _, _, rfl⟩⟩ := allocLarge_ok hlarge
    · exact h
    · exact h

theorem free (h : Furnished B holds s.1.1) (hf : GeneralPurpose.free B mem s = .ok ((), t)) :
    Furnished B holds t.1.1 := by
  cases free_ok hf with
  | null _ => exact h
  | unknown _ _ => exact h
  | slot _ _ hrel =>
    cases hrel with
    | kept hc hi hslot _ => exact h.set hc hi (Bucket.releaseSlot_shape hslot)
    | emptied hc hi _ _ _ _ =>
      obtain ⟨others, hall, _, herase⟩ := buckets_at hc hi
      intro x hx
      exact h x (hall.mem_iff.2 (List.mem_cons_of_mem _ (herase.mem_iff.1 hx)))
  | large _ _ _ _ => exact h

theorem resize (h : Furnished B holds s.1.1) (hheld : holds s.1.1.held (s.1.2, s.2))
    (hr : (allocator B).resize mem size align s = .ok (r, t)) : Furnished B holds t.1.1 := by
  cases hn : mem.isNull with
  | true =>
    rw [(orderly B).resize_null hn] at hr
    exact h.alloc hheld hr
  | false =>
    by_cases hs : size = 0
    · subst hs
      exact h.free ((orderly B).resize_zero_ok hn hr).2
    rcases resizeBy_ok hn hs hr with ⟨_, _, rfl⟩ | ⟨_, hadj⟩
    · exact h
    cases adjust_ok hadj with
    | unknown => exact h
    | inSlot _ _ => exact h
    | moved _ hreloc =>
      rcases relocate_ok hreloc with ⟨_, _, ha⟩ | ⟨fresh, u, _, ha, hf⟩
      · exact h.alloc hheld ha
      · exact (h.alloc hheld ha).free (s := (u.1, u.2.mapMemory (·.copyCommon mem fresh))) hf
    | refused _ _ _ => exact h
    | behind _ _ _ => exact h

theorem step (h : Furnished B holds s.1.1) (hheld : holds s.1.1.held (s.1.2, s.2)) {d : Deed}
    (hd : (allocator B).perform d s = .ok (r, t)) : Furnished B holds t.1.1 := by
  cases d with
  | alloc size align => exact h.alloc hheld hd
  | allocZeroed size align =>
    rcases allocZeroed_ok hd with ⟨_, _, ha⟩ | ⟨_, u, _, ha, rfl⟩
    · exact h.alloc hheld ha
    · exact (h.alloc hheld ha :)
  | resize mem size align => exact h.resize hheld hd
  | free mem => exact h.free (perform_free_ok hd).2
  | write addr byte =>
    rw [(perform_write_ok hd).2]
    exact h

end Furnished

/-! ### The books of the allocator behind -/

variable {rule : List (Lease (GeneralPurpose × β)) → Deed → Prop} {bucketSize : Nat} {x : β}
  {m : Machine} {live : List (Lease (GeneralPurpose × β))}

/-- If no write matters, what is held is known whatever is asked. -/
theorem held_steady (hB : Ledger B fit holds)
    (hany : ∀ out b m m', holds out (b, m) → holds out (b, m')) :
    Steady (allocator B) (adjust B) fun s => holds s.1.1.held (s.1.2, s.2) where
  resize_eq := rfl
  machine hi := hany _ _ _ _ hi
  alloc hi ha := alloc_held hB ha hi
  free hi hf := free_held hB hf hi
  adjust hi hn hs ha := (adjust_held hB hn hs ha hi).imp_left (·.1)

/-- Under a rule that the allocator behind puts up with, what the table stands on is outstanding. -/
theorem held_of_run (hB : Supply B fit holds) (hrule : Tolerates fit holds rule)
    (hstart : holds [] (x, m))
    (hrun : Run (allocator B) [GeneralPurpose.destroy B] rule
      ((GeneralPurpose.new bucketSize, x), m) live s) :
    holds s.1.1.held (s.1.2, s.2) := by
  have hnew : holds (GeneralPurpose.new bucketSize).held (x, m) := by
    rw [held_new]
    exact hstart
  have hswept : ∀ {s t : (GeneralPurpose × β) × Machine}, holds s.1.1.held (s.1.2, s.2) →
      GeneralPurpose.destroy B s = .ok ((), t) → holds t.1.1.held (t.1.2, t.2) := by
    intro s t hheld hd
    obtain ⟨hown, hback⟩ := destroy_ok hB.toLedger hd hheld
    rw [hown]
    exact hback
  cases hrule with
  | silence =>
    induction hrun with
    | start => exact hnew
    | @deed live s d r t _ hsilent hd ih =>
      cases d with
      | alloc size align => exact alloc_held hB.toLedger hd ih
      | free mem => exact free_held hB.toLedger (perform_free_ok hd).2 ih
      | _ => exact hsilent.elim
    | sweep _ hx hd ih =>
      rw [List.mem_singleton.1 hx] at hd
      exact hswept ih hd
  | blocks hmeets => exact (Lodged.of_run (hB.mono hmeets) hstart hrun).kept.backed
  | anything hany =>
    refine (held_steady hB.toLedger hany).run ?_ hnew hrun
    intro x hx u v hu hd
    rw [List.mem_singleton.1 hx] at hd
    exact hswept hu hd

/-- The table has its shape, it stands on what is outstanding, and that is what was answered when
the slots were asked for. -/
structure Based (B : Allocator β) (holds : List Slice → β × Machine → Prop)
    (s : (GeneralPurpose × β) × Machine) : Prop where
  shaped : s.1.1.Shaped
  held : holds s.1.1.held (s.1.2, s.2)
  furnished : Furnished B holds s.1.1

theorem Based.of_run (hB : Supply B fit holds) (hrule : Tolerates fit holds rule)
    (hstart : holds [] (x, m))
    (hrun : Run (allocator B) [GeneralPurpose.destroy B] rule
      ((GeneralPurpose.new bucketSize, x), m) live s) : Based B holds s := by
  have hheld := held_of_run hB hrule hstart hrun
  induction hrun with
  | start =>
    refine ⟨.new bucketSize, hheld, ?_⟩
    simp [Furnished, buckets_new]
  | deed hrun' _ hd ih =>
    have hbefore := ih (held_of_run hB hrule hstart hrun')
    exact ⟨(shaped_steady B).step hbefore.shaped hd, hheld,
      hbefore.furnished.step hbefore.held hd⟩
  | sweep hrun' hx hd ih =>
    rw [List.mem_singleton.1 hx] at hd
    have hbefore := ih (held_of_run hB hrule hstart hrun')
    obtain ⟨hown, _⟩ := destroy_ok hB.toLedger hd hbefore.held
    refine ⟨?_, hheld, ?_⟩
    · rw [hown]
      exact hbefore.shaped.cleared
    · rw [hown]
      intro b hb
      have hnew : b ∈ (GeneralPurpose.new 0).buckets := hb
      simp [buckets_new] at hnew

/-! ### What a request is dealt -/

/-- The block is slot `k` of bucket `i` of class `c`. The bucket has as many slots as fit into what
was asked for it; what was got need not have room for them. -/
structure Carved (B : Allocator β) (holds : List Slice → β × Machine → Prop) (g : GeneralPurpose)
    (size c i k : Nat) (b : Bucket) (block : Slice) : Prop where
  bucket : g.At c i b
  count : b.slots.length = g.bucketSize / 2 ^ c
  asked : B.Answered holds (g.bucketSize / 2 ^ c * 2 ^ c) (2 ^ c) b.storage
  slot : k < g.bucketSize / 2 ^ c
  taken : b.slots.get k = true
  fits : size ≤ 2 ^ c
  place : block = ⟨b.storage.addr + k * 2 ^ c, size⟩
  inside : block.Inside b.storage ↔ k * 2 ^ c + size ≤ b.storage.len
  found : g.owner block.addr = .ok (some (.slot c i k)) ↔ k * 2 ^ c < b.storage.len
  whole : g.bucketSize / 2 ^ c * 2 ^ c ≤ b.storage.len →
    block.Inside b.storage ∧ g.owner block.addr = .ok (some (.slot c i k))

/-- What becomes of a request for `size` bytes. It is refused where the allocator behind refuses, or
before anything is asked of that. A small block is one slot, which need not lie in the storage of
its bucket; a large one is what the allocator behind has handed out, however long that is. -/
inductive Dealt (B : Allocator β) (holds : List Slice → β × Machine → Prop) (size align : Nat)
    (s : (GeneralPurpose × β) × Machine) : Answer → (GeneralPurpose × β) × Machine → Prop
  | refused {e : AllocError} {t : (GeneralPurpose × β) × Machine} :
      (t = s ∨ ∃ size' align' e' u, B.alloc size' align' (s.1.2, s.2) = .ok (.error e', u) ∧
        t = ((s.1.1, u.1), u.2)) →
      Dealt B holds size align s (.error e) t
  | small {c i k : Nat} {b : Bucket} {block : Slice} {t : (GeneralPurpose × β) × Machine} :
      Carved B holds t.1.1 size c i k b block → Dealt B holds size align s (.ok block) t
  | large {block : Slice} {u : β × Machine} {t : (GeneralPurpose × β) × Machine} :
      B.alloc size (normalizeAlign align) (s.1.2, s.2) = .ok (.ok block, u) →
      block ∈ t.1.1.large →
      (0 < block.len → ∃ i, t.1.1.owner block.addr = .ok (some (.large i))) →
      Dealt B holds size align s (.ok block) t

/-- The block is as long as was asked for, lies in one that is outstanding, and is found again. -/
structure Delivered (g : GeneralPurpose) (size : Nat) (block : Slice) : Prop where
  long : size ≤ block.len
  inside : ∃ held ∈ g.held, block.Inside held
  found : ∃ o, g.owner block.addr = .ok (some o)

/-- The slot that a small block has got, in the table with that slot taken. -/
theorem taken_slot (hs : s.1.1.Shaped) (hclass : s.1.1.sizeClass size align = .ok (some c))
    (hsmall : allocSmall B c size s = .ok (.ok mem, t)) :
    ∃ i k b, t.1.1.At c i b ∧ b.slots.get k = true ∧ mem = ⟨(b.place k).addr, size⟩ := by
  cases allocSmall_slotted hsmall with
  | @taken index u bs b addr b' es hroom hc hi htake =>
    have hsound : b.Sound c := by
      rcases hs.roomed (sizeClass_le hclass).2 hroom with ⟨_, hbad, _⟩ | ⟨_, _, hready⟩
      · cases hbad
      · exact (hready.bucket ⟨bs, hc, hi⟩).toSound
    obtain ⟨_, slot, _, _, rfl, hplaces⟩ := Bucket.takeSlot_ok hsound htake
    obtain ⟨k, hk, heq⟩ := Bucket.mem_places.1 (hplaces.mem_iff.2 List.mem_cons_self)
    refine ⟨index, k, b', ⟨bs.set index b', ?_, ?_⟩, hk, ?_⟩
    · rw [classes_setBuckets, List.getElem?_set_self (List.getElem?_eq_some_iff.1 hc).1]
    · exact List.getElem?_set_self (List.getElem?_eq_some_iff.1 hi).1
    · rw [heq]

namespace Based

theorem bounded (hB : Supply B fit holds) (h : Based B holds s) :
    ∀ b ∈ s.1.1.buckets, b.storage.Bounded :=
  fun _ hb => hB.bounded h.held _ (List.mem_append_left _ (List.mem_map_of_mem hb))

theorem alloc (hB : Supply B fit holds) (h : Based B holds s)
    (ha : GeneralPurpose.alloc B size align s = .ok (r, t)) : Based B holds t :=
  ⟨alloc_shaped h.shaped ha, alloc_held hB.toLedger ha h.held, h.furnished.alloc h.held ha⟩

theorem carved (hB : Supply B fit holds) (h : Based B holds s) (hat : s.1.1.At c i b)
    (hk : b.slots.get k = true) (hsize : size ≤ 2 ^ c) :
    Carved B holds s.1.1 size c i k b ⟨(b.place k).addr, size⟩ := by
  have hformed := h.shaped.bucket hat
  have hobj : b.objSize = 2 ^ c := hformed.objSize
  have hfound := owner_slot_iff h.shaped.sound (hB.apart h.held) (h.bounded hB) hat hk
  have hasked := h.furnished b (mem_buckets_at.2 ⟨c, i, hat⟩)
  have hlt : k < s.1.1.bucketSize / 2 ^ c := hformed.length ▸ Bitmap.lt_of_get hk
  rw [hformed.length, hobj] at hasked
  simp only [Bucket.place, hobj] at hfound ⊢
  have hinside : Slice.Inside ⟨b.storage.addr + k * 2 ^ c, size⟩ b.storage ↔
      k * 2 ^ c + size ≤ b.storage.len := by
    simp only [Slice.Inside]
    omega
  refine ⟨hat, hformed.length, hasked, hlt, hk, hsize, rfl, hinside, hfound, fun hwhole => ?_⟩
  -- the slots up to this one end where the storage does, or before
  have hends : (k + 1) * 2 ^ c ≤ b.storage.len :=
    Nat.le_trans (Nat.mul_le_mul_right _ hlt) hwhole
  have hpos := Nat.two_pow_pos c
  rw [Nat.succ_mul] at hends
  exact ⟨hinside.2 (by omega), hfound.2 (by omega)⟩

theorem dealt (hB : Supply B fit holds) (h : Based B holds s)
    (ha : GeneralPurpose.alloc B size align s = .ok (r, t)) : Dealt B holds size align s r t := by
  have hafter := h.alloc hB ha
  cases r with
  | error e => exact .refused (refused_behind h.shaped ha)
  | ok block =>
    rcases alloc_ok ha with ⟨_, hbad, _⟩ | ⟨_, _, ⟨c, hclass, hsmall⟩ | hlarge⟩
    · cases hbad
    · obtain ⟨i, k, b, hat, hk, rfl⟩ := taken_slot h.shaped hclass hsmall
      exact .small (hafter.carved hB hat hk (sizeClass_eq_some hclass).1)
    · obtain ⟨u, ⟨_, hbad, _⟩ | ⟨_, es, heq, hcall, rfl⟩⟩ := allocLarge_ok hlarge
      · cases hbad
      · cases heq
        have hmem : block ∈ s.1.1.large ++ [block] :=
          List.mem_append_right _ (List.mem_singleton_self _)
        exact .large hcall hmem (owner_large_of_mem hafter.shaped.sound (hB.apart hafter.held)
          (hafter.bounded hB) hmem)

end Based

/-- Where all that comes from behind is as long as was asked for, so is every block. -/
theorem Dealt.delivered {block : Slice} (hB : Supply B fit holds) (hs : 0 < size)
    (hheld : holds s.1.1.held (s.1.2, s.2))
    (hlong : ∀ size align block, fit size align block → size ≤ block.len)
    (h : Dealt B holds size align s (.ok block) t) : Delivered t.1.1 size block := by
  cases h with
  | small hcarved =>
    obtain ⟨hin, howner⟩ := hcarved.whole (hlong _ _ _ (hcarved.asked.fits hB.toLedger))
    have hb := mem_buckets_at.2 ⟨_, _, hcarved.bucket⟩
    exact ⟨Nat.le_of_eq (by rw [hcarved.place]),
      ⟨_, List.mem_append_left _ (List.mem_map_of_mem hb), hin⟩, _, howner⟩
  | large hcall hmem hfound =>
    have hlen := hlong _ _ _ (hB.alloc hheld hcall).1
    obtain ⟨i, howner⟩ := hfound (Nat.lt_of_lt_of_le hs hlen)
    exact ⟨hlen, ⟨block, List.mem_append_right _ hmem, .refl _⟩, _, howner⟩

end GeneralPurpose

/-- Whatever a client does with a general-purpose allocator over any supply of disjoint blocks, long
or short, and whatever it asks for then: what the table stands on is outstanding, a small block
lies in the storage of its bucket exactly if its slot ends there and is found again exactly if its
slot starts there, and a large block is all that came from behind. No block is refused or given back
for being too short. If nothing that comes from behind is shorter than was asked for, every block is
what was asked for. -/
theorem dealt_of_run {B : Allocator β} {fit : Nat → Nat → Slice → Prop}
    {holds : List Slice → β × Machine → Prop}
    {rule : List (Lease (GeneralPurpose × β)) → Deed → Prop} {bucketSize : Nat} {b : β}
    {m : Machine} {live : List (Lease (GeneralPurpose × β))}
    {s t : (GeneralPurpose × β) × Machine} {size align : Nat} {r : Answer}
    (hB : Supply B fit holds) (hrule : Tolerates fit holds rule) (hstart : holds [] (b, m))
    (hrun : Run (GeneralPurpose.allocator B) [GeneralPurpose.destroy B] rule
      ((GeneralPurpose.new bucketSize, b), m) live s)
    (ha : (GeneralPurpose.allocator B).alloc size align s = .ok (r, t)) :
    holds t.1.1.held (t.1.2, t.2) ∧ GeneralPurpose.Dealt B holds size align s r t ∧
      ((∀ size align block, fit size align block → size ≤ block.len) →
        ∀ block, r = .ok block → GeneralPurpose.Delivered t.1.1 size block) := by
  have hbased := GeneralPurpose.Based.of_run hB hrule hstart hrun
  have hdealt := hbased.dealt hB ha
  refine ⟨(hbased.alloc hB ha).held, hdealt, fun hlong block heq => ?_⟩
  subst heq
  have hpos : 0 < size := by
    rcases GeneralPurpose.alloc_ok ha with ⟨_, hbad, _⟩ | ⟨hs, _⟩
    · cases hbad
    · exact hs
  exact hdealt.delivered hB hpos hbased.held hlong

/-- The third request for four bytes over a heap that hands out eight for every request: its slot
would be the third of a bucket that has room for two. Over a fixed region, which a client writes
into that frees and resizes with wrong slices, a request gets what it asks for. -/
theorem dealt_by_short_and_fixed :
    (∃ live s t, Run (GeneralPurpose.allocator ScriptedHeap.allocator)
        [GeneralPurpose.destroy ScriptedHeap.allocator] Unruly
        ((GeneralPurpose.new 64, ⟨0, 4096, 1024, [], some 8, 0, 0, 0, 0, 0, 0⟩), ⟨.zero, [], []⟩)
        live s ∧
      live.map (·.block) = [⟨4164, 4⟩, ⟨4160, 4⟩, ⟨4096, 40⟩] ∧
      (GeneralPurpose.allocator ScriptedHeap.allocator).alloc 4 4 s = .ok (.ok ⟨4168, 4⟩, t) ∧
      ScriptedHeap.Cut t.1.1.held t.1.2 ∧
      GeneralPurpose.Dealt ScriptedHeap.allocator (fun out s => ScriptedHeap.Cut out s.1) 4 4 s
        (.ok ⟨4168, 4⟩) t) ∧
    ∃ live s t, Run (GeneralPurpose.allocator Fixed.allocator)
        [GeneralPurpose.destroy Fixed.allocator] Confined
        ((GeneralPurpose.new 64, ⟨64, 1024, 0⟩), ⟨.zero, [], []⟩) live s ∧
      live.map (·.block) = [⟨80, 12⟩] ∧
      (GeneralPurpose.allocator Fixed.allocator).alloc 9 8 s = .ok (.ok ⟨96, 9⟩, t) ∧
      GeneralPurpose.Delivered t.1.1 9 ⟨96, 9⟩ := by
  have hshort : ((GeneralPurpose.allocator ScriptedHeap.allocator).play Unruly
      [.alloc 40 8, .alloc 4 4, .alloc 4 4, .write 4164 9] []
      ((GeneralPurpose.new 64, ⟨0, 4096, 1024, [], some 8, 0, 0, 0, 0, 0, 0⟩),
        ⟨.zero, [], []⟩)).map (fun r => (r.1.map (·.block),
          ((GeneralPurpose.allocator ScriptedHeap.allocator).alloc 4 4 r.2).toOption.map (·.1))) =
        some ([⟨4164, 4⟩, ⟨4160, 4⟩, ⟨4096, 40⟩], some (.ok ⟨4168, 4⟩)) := by
    decide +kernel
  have hfixed : ((GeneralPurpose.allocator Fixed.allocator).play Confined
      [.alloc 10 8, .write 85 7, .resize ⟨80, 3⟩ 12 4, .free ⟨81, 7⟩] []
      ((GeneralPurpose.new 64, ⟨64, 1024, 0⟩), ⟨.zero, [], []⟩)).map (fun r =>
        (r.1.map (·.block),
          ((GeneralPurpose.allocator Fixed.allocator).alloc 9 8 r.2).toOption.map (·.1))) =
        some ([⟨80, 12⟩], some (.ok ⟨96, 9⟩)) := by
    decide +kernel
  have hmeets : Supply Fixed.allocator Slice.Meets (Stacking.Holds Fixed.Kept) :=
    Fixed.stacking.contract.supply.mono fun _ _ _ h => h.1
  refine ⟨?_, ?_⟩
  · obtain ⟨⟨live, s⟩, hplay, hends⟩ := Option.map_eq_some_iff.1 hshort
    obtain ⟨hlive, hlast⟩ := Prod.mk.inj hends
    obtain ⟨⟨r, t⟩, hout, rfl⟩ := Option.map_eq_some_iff.1 hlast
    have ha := Act.ok_of_toOption hout
    have hrun : Run (GeneralPurpose.allocator ScriptedHeap.allocator)
        [GeneralPurpose.destroy ScriptedHeap.allocator] Unruly _ live s := Run.start.play hplay
    obtain ⟨hheld, hdealt, _⟩ := dealt_of_run ScriptedHeap.supply_cut
      (.anything fun _ _ _ _ hh => hh) ⟨by decide, by decide, by simp, .nil⟩ hrun ha
    exact ⟨live, s, t, hrun, hlive, ha, hheld, hdealt⟩
  · obtain ⟨⟨live, s⟩, hplay, hends⟩ := Option.map_eq_some_iff.1 hfixed
    obtain ⟨hlive, hlast⟩ := Prod.mk.inj hends
    obtain ⟨⟨r, t⟩, hout, rfl⟩ := Option.map_eq_some_iff.1 hlast
    have ha := Act.ok_of_toOption hout
    have hrun : Run (GeneralPurpose.allocator Fixed.allocator)
        [GeneralPurpose.destroy Fixed.allocator] Confined _ live s := Run.start.play hplay
    obtain ⟨_, _, hdelivered⟩ := dealt_of_run hmeets (.blocks fun _ _ _ h => h)
      (Fixed.holds_nil (by decide)) hrun ha
    exact ⟨live, s, t, hrun, hlive, ha, hdelivered (fun _ _ _ h => h.1) _ rfl⟩

/-- Over a heap that hands out eight bytes for every request, a request for forty bytes is answered
with forty bytes where eight are outstanding, the third request for four bytes with bytes that are
not outstanding and are not taken back, and a request for a hundred bytes with eight. -/
theorem overrun_by_short_blocks :
    ∃ live s t u, Run (GeneralPurpose.allocator ScriptedHeap.allocator.traced)
        [GeneralPurpose.destroy ScriptedHeap.allocator.traced] Unruly
        ((GeneralPurpose.new 64, [], ⟨0, 4096, 1024, [], some 8, 0, 0, 0, 0, 0, 0⟩),
          ⟨.zero, [], []⟩) live s ∧
      live.map (·.block) = [⟨4168, 4⟩, ⟨4164, 4⟩, ⟨4160, 4⟩, ⟨4096, 40⟩] ∧
      outstanding s.1.2.1 = [⟨4160, 8⟩, ⟨4096, 8⟩] ∧
      (GeneralPurpose.allocator ScriptedHeap.allocator.traced).free ⟨4168, 4⟩ s = .ok ((), t) ∧
      t = (s.1, s.2.report [.freeUnrecognised 4168]) ∧
      (GeneralPurpose.allocator ScriptedHeap.allocator.traced).alloc 100 8 s =
        .ok (.ok ⟨4224, 8⟩, u) := by
  have hplayed : ((GeneralPurpose.allocator ScriptedHeap.allocator.traced).play Unruly
      [.alloc 40 8, .alloc 4 4, .alloc 4 4, .alloc 4 4] []
      ((GeneralPurpose.new 64, [], ⟨0, 4096, 1024, [], some 8, 0, 0, 0, 0, 0, 0⟩),
        ⟨.zero, [], []⟩)).map (fun r => (r.1.map (·.block), outstanding r.2.1.2.1,
          (r.2.1.1.owner 4168).toOption == some none,
          ((GeneralPurpose.allocator ScriptedHeap.allocator.traced).alloc 100 8
            r.2).toOption.map (·.1))) =
        some ([⟨4168, 4⟩, ⟨4164, 4⟩, ⟨4160, 4⟩, ⟨4096, 40⟩], [⟨4160, 8⟩, ⟨4096, 8⟩], true,
          some (.ok ⟨4224, 8⟩)) := by
    decide +kernel
  obtain ⟨⟨live, s⟩, hplay, hends⟩ := Option.map_eq_some_iff.1 hplayed
  simp only [Prod.mk.injEq] at hends
  obtain ⟨hlive, houtstanding, howner, hlast⟩ := hends
  obtain ⟨⟨r, u⟩, hout, rfl⟩ := Option.map_eq_some_iff.1 hlast
  have hfree : GeneralPurpose.free ScriptedHeap.allocator.traced ⟨4168, 4⟩ s = _ :=
    GeneralPurpose.free_unknown rfl (Act.ok_of_toOption (beq_iff_eq.1 howner))
  exact ⟨live, s, _, u, Run.start.play hplay, hlive, houtstanding, hfree, rfl,
    Act.ok_of_toOption hout⟩

end AllocChain
