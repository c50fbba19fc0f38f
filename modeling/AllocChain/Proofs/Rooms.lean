import Mathlib.Data.List.Perm.Subperm
import AllocChain.Proofs.Blind
import AllocChain.Proofs.ScriptedCut

/-!
Allocators whose blocks may be shorter than what was asked for. What can be relied on is the room
that a block is in: it starts where the block does, and has all the bytes that were asked for even
if the block has not. Rooms lie apart, and which are taken does not depend on the memory
(`Spacious`). A client changes nothing in the rooms of others, whatever it does with its blocks
(`Spacious.step`); and what is put up on such an allocator can use blocks of it, as long as it only
requests and frees them, and is answered alike over all memories (`Spacious.kindred`).
-/

namespace AllocChain

open Memory

/-! ### Rooms -/

namespace Slice

/-- The slice starts where the room does, and ends in it. -/
def Fits (block room : Slice) : Prop := block.addr = room.addr ∧ block.len ≤ room.len

/-- The block with all bytes that were asked for. -/
def widened (block : Slice) (size : Nat) : Slice := ⟨block.addr, max size block.len⟩

variable {block room : Slice}

theorem Fits.refl (room : Slice) : room.Fits room := ⟨rfl, Nat.le_refl _⟩

theorem Fits.inside (h : block.Fits room) : block.Inside room := by
  obtain ⟨haddr, hlen⟩ := h
  simp only [Inside]
  omega

theorem fits_widened (block : Slice) (size : Nat) : block.Fits (block.widened size) :=
  ⟨rfl, Nat.le_max_right _ _⟩

end Slice

/-- Each block fits a room of its own; there may be more rooms. -/
def Covered (blocks rooms : List Slice) : Prop :=
  ∃ own, List.Forall₂ Slice.Fits blocks own ∧ own.Subperm rooms

namespace Covered

variable {blocks blocks' rooms rooms' : List Slice} {block room : Slice}

theorem nil (rooms : List Slice) : Covered [] rooms := ⟨[], .nil, List.nil_subperm⟩

theorem perm (h : Covered blocks rooms) (hp : blocks.Perm blocks') : Covered blocks' rooms := by
  obtain ⟨own, hfits, hsub⟩ := h
  obtain ⟨own', hfits', hperm⟩ := List.perm_comp_forall₂ hp.symm hfits
  exact ⟨own', hfits', hperm.subperm.trans hsub⟩

theorem mono (h : Covered blocks rooms) (hs : rooms.Subperm rooms') : Covered blocks rooms' := by
  obtain ⟨own, hfits, hsub⟩ := h
  exact ⟨own, hfits, hsub.trans hs⟩

theorem cons (h : Covered blocks rooms) (hfits : block.Fits room) :
    Covered (block :: blocks) (room :: rooms) := by
  obtain ⟨own, hall, hsub⟩ := h
  exact ⟨room :: own, .cons hfits hall, (List.subperm_cons room).2 hsub⟩

theorem tail (h : Covered (block :: blocks) rooms) : Covered blocks rooms := by
  obtain ⟨_, hfits, hsub⟩ := h
  cases hfits with
  | cons _ hall => exact ⟨_, hall, (List.sublist_cons_self _ _).subperm.trans hsub⟩

/-- The room of the first block; without it, there is still one for each of the others. -/
theorem uncons (h : Covered (block :: blocks) rooms) :
    ∃ room ∈ rooms, block.Fits room ∧ ∀ rest, rooms.Perm (room :: rest) → Covered blocks rest := by
  obtain ⟨_, hfits, hsub⟩ := h
  cases hfits with
  | @cons _ room _ own hfit hall =>
    refine ⟨room, hsub.subset List.mem_cons_self, hfit, fun rest hp => ⟨own, hall, ?_⟩⟩
    exact (List.subperm_cons room).1 (hsub.trans hp.subperm)

theorem split {blocks₂ : List Slice} (h : Covered (blocks ++ blocks₂) rooms) :
    ∃ own own₂, Covered blocks own ∧ Covered blocks₂ own₂ ∧ rooms.Perm (own ++ own₂) := by
  induction blocks generalizing rooms with
  | nil => exact ⟨[], rooms, .nil [], h, .refl _⟩
  | cons block blocks ih =>
    obtain ⟨room, hmem, hfit, hrest⟩ := h.uncons
    have hp := List.perm_cons_erase hmem
    obtain ⟨own, own₂, hown, hown₂, hboth⟩ := ih (hrest _ hp)
    exact ⟨room :: own, own₂, hown.cons hfit, hown₂, hp.trans (hboth.cons room)⟩

theorem fits (h : Covered blocks rooms) (hb : block ∈ blocks) :
    ∃ room ∈ rooms, block.Fits room := by
  obtain ⟨room, hmem, hfit, _⟩ := (h.perm (List.perm_cons_erase hb)).uncons
  exact ⟨room, hmem, hfit⟩

theorem apart (h : Covered blocks rooms) (hd : rooms.Pairwise Slice.Disjoint) :
    blocks.Pairwise Slice.Disjoint := by
  induction blocks generalizing rooms with
  | nil => exact .nil
  | cons block blocks ih =>
    obtain ⟨room, hmem, hfit, hrest⟩ := h.uncons
    have hp := List.perm_cons_erase hmem
    obtain ⟨hfirst, hothers⟩ := List.pairwise_cons.1 (hp.pairwise hd fun hd => hd.symm)
    refine List.pairwise_cons.2 ⟨fun other ho => ?_, ih (hrest _ hp) hothers⟩
    obtain ⟨room', hmem', hfit'⟩ := (hrest _ hp).fits ho
    exact (hfirst room' hmem').mono hfit.inside hfit'.inside

end Covered

/-! ### Allocators with rooms -/

variable {β : Type}

/-- The allocator writes only what it moves, and takes null blocks and sizes of zero as agreed. -/
structure Allocator.Discreet (B : Allocator β) : Prop where
  alloc_memory {s size align r t} : B.alloc size align s = .ok (r, t) → t.2.memory = s.2.memory
  free_memory {s block t} : B.free block s = .ok ((), t) → t.2.memory = s.2.memory
  resize_memory {s old size align block t} : old.isNull = false → size ≠ 0 →
    B.resize old size align s = .ok (.ok block, t) → WrittenIn [block] s.2.memory t.2.memory
  refused_memory {s old size align e t} : old.isNull = false → size ≠ 0 →
    B.resize old size align s = .ok (.error e, t) → t.2.memory = s.2.memory
  resize_null {old size align} : old.isNull = true → B.resize old size align = B.alloc size align
  resize_zero {old align} : old.isNull = false → B.resize old 0 align = do
    B.free old
    return .ok .null

theorem Allocator.Discreet.resize_zero_ok {B : Allocator β} (h : B.Discreet) {old : Slice}
    {align : Nat} {s t : β × Machine} {r : Answer} (hn : old.isNull = false)
    (hr : B.resize old 0 align s = .ok (r, t)) : r = .ok .null ∧ B.free old s = .ok ((), t) := by
  rw [h.resize_zero hn] at hr
  obtain ⟨_, _, hfree, hret⟩ := Act.bind_ok.1 hr
  obtain ⟨rfl, rfl⟩ := Act.pure_ok.1 hret
  exact ⟨rfl, hfree⟩

/-- The allocator hands out blocks in rooms that lie apart, and does not look into the memory. Which
rooms are taken is a matter of its bookkeeping alone. -/
structure Spacious (B : Allocator β) (holds : List Slice → β → Prop) : Prop
    extends B.Blind, B.Discreet where
  perm {rooms rooms' b} : rooms.Perm rooms' → holds rooms b → holds rooms' b
  drop {room rooms b} : holds (room :: rooms) b → holds rooms b
  apart {rooms b} : holds rooms b → rooms.Pairwise Slice.Disjoint
  bounded {rooms b} : holds rooms b → ∀ room ∈ rooms, room.Bounded
  nonnull {rooms b} : holds rooms b → ∀ room ∈ rooms, room.addr ≠ 0
  grant {rooms s size align block t} : holds rooms s.1 → B.alloc size align s = .ok (.ok block, t) →
    holds (block.widened size :: rooms) t.1
  refuse {rooms s size align e t} : holds rooms s.1 → B.alloc size align s = .ok (.error e, t) →
    holds rooms t.1
  regrant {room rooms s old size align block t} : holds (room :: rooms) s.1 → old.Fits room →
    old.isNull = false → size ≠ 0 → B.resize old size align s = .ok (.ok block, t) →
    holds (block.widened size :: rooms) t.1
  retain {rooms s old size align e t} : holds rooms s.1 → old.isNull = false → size ≠ 0 →
    B.resize old size align s = .ok (.error e, t) → holds rooms t.1
  release {room rooms s block t} : holds (room :: rooms) s.1 → block.Fits room →
    B.free block s = .ok ((), t) → holds rooms t.1
  pass {rooms s block t} : holds rooms s.1 → block.isNull = true → B.free block s = .ok ((), t) →
    holds rooms t.1

/-- The allocator for those who never resize: it refuses to. -/
def Allocator.still (B : Allocator β) : Allocator β where
  alloc := B.alloc
  resize := resizeBy B.alloc B.free fun _ size align => return .error (.outOfMemory size align)
  free := B.free

theorem still_resize {B : Allocator β} {old : Slice} {size align : Nat} {s t : β × Machine}
    {r : Answer} (hn : old.isNull = false) (hs : size ≠ 0)
    (h : B.still.resize old size align s = .ok (r, t)) : ∃ e, r = .error e ∧ t = s := by
  simp only [Allocator.still] at h
  rcases resizeBy_ok hn hs h with hrefused | ⟨_, hadj⟩
  · exact hrefused
  · obtain ⟨rfl, rfl⟩ := Act.pure_ok.1 hadj
    exact ⟨_, rfl, rfl⟩

theorem still_freeAll (B : Allocator β) : B.still.freeAll = B.freeAll := by
  funext blocks
  induction blocks with
  | nil => rfl
  | cons block blocks ih =>
    simp only [Allocator.freeAll, ih]
    rfl

/-- The blocks lie in rooms that are taken. -/
def Sheltered (holds : List Slice → β → Prop) (out : List Slice) (s : β × Machine) : Prop :=
  ∃ rooms, Covered out rooms ∧ holds rooms s.1

/-- Beside the rooms those of others are taken, in which their blocks lie. -/
def Shared (holds : List Slice → β → Prop) (others rooms : List Slice) (b : β) : Prop :=
  ∃ own, Covered others own ∧ holds (rooms ++ own) b

namespace Spacious

variable {B : Allocator β} {holds : List Slice → β → Prop} {s t : β × Machine}
  {out own rooms : List Slice} {room block : Slice} {size align : Nat} {r : Answer}

/-- What is written into one room leaves the others alone. -/
theorem agreesOn (hB : Spacious B holds) {b : β} {m m' : Memory} (hin : block.Inside room)
    (hh : holds (room :: rooms) b) (hw : WrittenIn [block] m m') : AgreesOn rooms m m' := by
  refine hw.agreesOn fun other ho => ?_
  exact ((List.pairwise_cons.1 (hB.apart hh)).1 other ho).mono hin (.refl _)

/-- What has rooms has them for each of several clients. -/
theorem shared (hB : Spacious B holds) (others : List Slice) :
    Spacious B (Shared holds others) where
  toBlind := hB.toBlind
  toDiscreet := hB.toDiscreet
  perm := fun hp ⟨own, hcov, hh⟩ => ⟨own, hcov, hB.perm (hp.append_right own) hh⟩
  drop := fun ⟨own, hcov, hh⟩ => ⟨own, hcov, hB.drop hh⟩
  apart := fun ⟨_, _, hh⟩ => (List.pairwise_append.1 (hB.apart hh)).1
  bounded := fun ⟨_, _, hh⟩ room hr => hB.bounded hh room (List.mem_append_left _ hr)
  nonnull := fun ⟨_, _, hh⟩ room hr => hB.nonnull hh room (List.mem_append_left _ hr)
  grant := fun ⟨own, hcov, hh⟩ ha => ⟨own, hcov, hB.grant hh ha⟩
  refuse := fun ⟨own, hcov, hh⟩ ha => ⟨own, hcov, hB.refuse hh ha⟩
  regrant := fun ⟨own, hcov, hh⟩ hfit hn hs hr => ⟨own, hcov, hB.regrant hh hfit hn hs hr⟩
  retain := fun ⟨own, hcov, hh⟩ hn hs hr => ⟨own, hcov, hB.retain hh hn hs hr⟩
  release := fun ⟨own, hcov, hh⟩ hfit hf => ⟨own, hcov, hB.release hh hfit hf⟩
  pass := fun ⟨own, hcov, hh⟩ hn hf => ⟨own, hcov, hB.pass hh hn hf⟩

theorem empty (hB : Spacious B holds) {b : β} (hh : holds rooms b) : holds [] b := by
  induction rooms with
  | nil => exact hh
  | cons room rooms ih => exact ih (hB.drop hh)

theorem freeAll (hB : Spacious B holds) {blocks : List Slice}
    (hfits : List.Forall₂ Slice.Fits blocks own) (hh : holds (own ++ rooms) s.1)
    (hf : B.freeAll blocks s = .ok ((), t)) : holds rooms t.1 := by
  induction hfits generalizing s with
  | nil =>
    cases hf
    exact hh
  | cons hfit _ ih =>
    obtain ⟨_, u, hfree, hrest⟩ := Act.bind_ok.1 hf
    exact ih (hB.release hh hfit hfree) hrest

/-! ### Deeds -/

theorem step_alloc (hB : Spacious B holds) (hh : Shared holds out rooms s.1)
    (ha : B.alloc size align s = .ok (r, t)) :
    (∃ block own, r = .ok block ∧ Covered out own ∧
      holds (block.widened size :: (rooms ++ own)) t.1) ∨
      ∃ e, r = .error e ∧ Shared holds out rooms t.1 := by
  obtain ⟨own, hcov, hh⟩ := hh
  cases r with
  | ok block => exact .inl ⟨block, own, rfl, hcov, hB.grant hh ha⟩
  | error e => exact .inr ⟨e, rfl, own, hcov, hB.refuse hh ha⟩

theorem share (hB : Spacious B holds) {b : β} (hcov : Covered out own)
    (hh : holds (block.widened size :: (rooms ++ own)) b) : Shared holds (block :: out) rooms b :=
  ⟨_, hcov.cons (block.fits_widened size), hB.perm List.perm_middle.symm hh⟩

/-- The block of a client has a room, which is its own. -/
theorem unshare (hB : Spacious B holds) {b : β} (hh : Shared holds out rooms b) (hb : block ∈ out) :
    ∃ room own, block.Fits room ∧ Covered (out.erase block) own ∧
      holds (room :: (rooms ++ own)) b := by
  obtain ⟨own, hcov, hh⟩ := hh
  obtain ⟨room, hmem, hfit, hrest⟩ := (hcov.perm (List.perm_cons_erase hb)).uncons
  have hp := List.perm_cons_erase hmem
  exact ⟨room, _, hfit, hrest _ hp,
    hB.perm ((hp.append_left rooms).trans List.perm_middle) hh⟩

/-- What is written in a block of a client leaves the rooms of others alone. -/
theorem agreesOn_beside (hB : Spacious B holds) {b : β} {m m' : Memory} (hin : block.Inside room)
    (hh : holds (room :: (rooms ++ own)) b) (hw : WrittenIn [block] m m') : AgreesOn rooms m m' :=
  (hB.agreesOn hin hh hw).subset (List.subset_append_left _ _)

theorem step_free (hB : Spacious B holds) (hh : Shared holds out rooms s.1) (hb : block ∈ out)
    (hf : B.free block s = .ok ((), t)) : Shared holds (out.erase block) rooms t.1 := by
  obtain ⟨room, own, hfit, hcov, hroom⟩ := hB.unshare hh hb
  exact ⟨own, hcov, hB.release hroom hfit hf⟩

/-- The rooms of a client after a proper deed. What is in the rooms of others stays. -/
theorem step (hB : Spacious B holds) (hh : Shared holds out rooms s.1) {d : Deed}
    (hd : d.Proper out) (hp : B.perform d s = .ok (r, t)) :
    Shared holds (d.leaves out r) rooms t.1 ∧ AgreesOn rooms s.2.memory t.2.memory := by
  have hsame : ∀ {m : Memory}, m = s.2.memory → AgreesOn rooms s.2.memory m := by
    rintro m rfl
    exact .refl _ _
  cases d with
  | alloc size align =>
    rcases hB.step_alloc hh hp with ⟨block, own, rfl, hcov, hroom⟩ | ⟨e, rfl, hkept⟩
    · exact ⟨hB.share hcov hroom, hsame (hB.alloc_memory hp)⟩
    · exact ⟨hkept, hsame (hB.alloc_memory hp)⟩
  | allocZeroed size align =>
    rcases allocZeroed_ok hp with ⟨e, rfl, ha⟩ | ⟨block, u, rfl, ha, rfl⟩
    · obtain ⟨own, hcov, hh⟩ := hh
      exact ⟨⟨own, hcov, hB.refuse hh ha⟩, hsame (hB.alloc_memory ha)⟩
    · obtain ⟨own, hcov, hh⟩ := hh
      have hroom := hB.grant hh ha
      have hzeroed := writtenIn_write s.2.memory block.addr block.len fun _ => 0
      rw [← hB.alloc_memory ha] at hzeroed ⊢
      exact ⟨hB.share hcov hroom, hB.agreesOn_beside (block.fits_widened size).inside hroom hzeroed⟩
  | resize old size align =>
    cases hn : old.isNull with
    | true =>
      have ha : B.alloc size align s = .ok (r, t) := by rwa [← hB.resize_null hn]
      rcases hB.step_alloc hh ha with ⟨block, own, rfl, hcov, hroom⟩ | ⟨e, rfl, hkept⟩
      · simp only [Deed.leaves, hn, if_true]
        exact ⟨hB.share hcov hroom, hsame (hB.alloc_memory ha)⟩
      · exact ⟨hkept, hsame (hB.alloc_memory ha)⟩
    | false =>
      have hmem : old ∈ out := hd.resolve_left (by simp [hn])
      by_cases hs : size = 0
      · subst hs
        obtain ⟨rfl, hf⟩ := hB.resize_zero_ok hn hp
        simp only [Deed.leaves, hn, Bool.false_eq_true, if_false, if_true]
        exact ⟨hB.step_free hh hmem hf, hsame (hB.free_memory hf)⟩
      cases r with
      | ok block =>
        simp only [Deed.leaves, hn, Bool.false_eq_true, if_false, if_neg hs]
        obtain ⟨room, own, hfit, hcov, hroom⟩ := hB.unshare hh hmem
        have hmoved := hB.regrant hroom hfit hn hs hp
        refine ⟨hB.share hcov hmoved, ?_⟩
        exact hB.agreesOn_beside (block.fits_widened size).inside hmoved (hB.resize_memory hn hs hp)
      | error e =>
        obtain ⟨own, hcov, hh⟩ := hh
        exact ⟨⟨own, hcov, hB.retain hh hn hs hp⟩, hsame (hB.refused_memory hn hs hp)⟩
  | free old =>
    obtain ⟨rfl, hf⟩ := perform_free_ok hp
    simp only [Deed.leaves]
    cases hn : old.isNull with
    | true =>
      obtain ⟨own, hcov, hh⟩ := hh
      rw [if_pos rfl]
      exact ⟨⟨own, hcov, hB.pass hh hn hf⟩, hsame (hB.free_memory hf)⟩
    | false =>
      have hmem : old ∈ out := hd.resolve_left (by simp [hn])
      rw [if_neg (by simp)]
      exact ⟨hB.step_free hh hmem hf, hsame (hB.free_memory hf)⟩
  | write addr byte =>
    obtain ⟨rfl, rfl⟩ := perform_write_ok hp
    obtain ⟨block, hb, hhas⟩ := hd
    obtain ⟨room, own, hfit, _, hroom⟩ := hB.unshare hh hb
    have hmem : ∃ b ∈ [block], b.Has addr := ⟨block, List.mem_singleton_self block, hhas⟩
    have hwritten := writtenIn_byte hmem s.2.memory fun _ => byte
    exact ⟨hh, hB.agreesOn_beside hfit.inside hroom hwritten⟩

/-! ### What may be put up on it -/

/-- What is not resized is kept apart from everything else. -/
theorem keeper (hB : Spacious B holds) : Keeper B.still (Sheltered holds) where
  supply :=
    { perm := fun hp ⟨rooms, hcov, hh⟩ => ⟨rooms, hcov.perm hp, hh⟩
      report := id
      write := fun hh _ => hh
      apart := fun ⟨_, hcov, hh⟩ => hcov.apart (hB.apart hh)
      bounded := by
        rintro out s ⟨rooms, hcov, hh⟩ block hb
        obtain ⟨room, hmem, hfit⟩ := hcov.fits hb
        exact Nat.lt_of_le_of_lt hfit.inside.2 (hB.bounded hh room hmem)
      alloc := by
        rintro out s size align block t ⟨rooms, hcov, hh⟩ ha
        have hnew := hB.grant hh ha
        have hne := hB.nonnull hnew (block.widened size) List.mem_cons_self
        exact ⟨hne, _, hcov.cons (block.fits_widened size), hnew⟩
      alloc_refused := fun ⟨rooms, hcov, hh⟩ ha => ⟨rooms, hcov, hB.refuse hh ha⟩
      resize := by
        intro out s old size align block t _ hn hs hr
        obtain ⟨_, hbad, _⟩ := still_resize hn hs hr
        cases hbad
      resize_refused := by
        intro out s old size align e t hh hn hs hr
        obtain ⟨_, _, rfl⟩ := still_resize hn hs hr
        exact hh
      free := by
        rintro out s block t ⟨rooms, hcov, hh⟩ hf
        obtain ⟨room, hmem, hfit, hrest⟩ := hcov.uncons
        have hp := List.perm_cons_erase hmem
        exact ⟨_, hrest _ hp, hB.release (hB.perm hp hh) hfit hf⟩ }
  custody :=
    { alloc := fun _ ha _ _ _ _ => by rw [hB.alloc_memory ha]
      resize := by
        intro out s old size align block t _ hn hs hr
        obtain ⟨_, hbad, _⟩ := still_resize hn hs hr
        cases hbad
      resize_refused := by
        intro out s old size align e t _ hn hs hr
        obtain ⟨_, _, rfl⟩ := still_resize hn hs hr
        exact .refl _ _
      free := fun _ hf _ _ _ _ => by rw [hB.free_memory hf] }

theorem kindred (hB : Spacious B holds) :
    Kindred .blind B.still (Sheltered holds) (Sheltered holds) fun _ _ s s' => s'.1 = s.1 where
  left := hB.keeper
  right := hB.keeper
  fewer := id
  perm _ := id
  mirror hm := hm.elim
  write hp _ _ _ := hp.related
  low _ := .inl trivial
  alloc {n out s s' size align} hp _ := by
    refine (hB.alloc size align s s' hp.related).imp fun r t t' _ _ ht => ?_
    cases r with
    | ok block => exact ht
    | error e => exact ⟨ht, fun _ => trivial⟩
  free hp := hB.free _ _ _ hp.related
  free_null hp _ := hB.free _ _ _ hp.related

end Spacious

/-! ### Allocators that pass calls on -/

/-- The allocator has calls answered by the one below, but may keep a free of null to itself. -/
structure Allocator.Relays {L : Type} (A : Allocator (L × β)) (B : Allocator β) : Prop where
  alloc {s size align r t} : A.alloc size align s = .ok (r, t) →
    ∃ l u, B.alloc size align (s.1.2, s.2) = .ok (r, u) ∧ t = ((l, u.1), u.2)
  resize {s old size align r t} : old.isNull = false → size ≠ 0 →
    A.resize old size align s = .ok (r, t) →
    ∃ l u, B.resize old size align (s.1.2, s.2) = .ok (r, u) ∧ t = ((l, u.1), u.2)
  free {s block t} : A.free block s = .ok ((), t) → (block.isNull = true ∧ t = s) ∨
    ∃ l u, B.free block (s.1.2, s.2) = .ok ((), u) ∧ t = ((l, u.1), u.2)
  resize_null {old size align} : old.isNull = true → B.resize old size align = B.alloc size align →
    A.resize old size align = A.alloc size align
  resize_zero {old align} : old.isNull = false → (B.resize old 0 align = do
    B.free old
    return .ok .null) → A.resize old 0 align = do
      A.free old
      return .ok .null

/-- What passes calls on to an allocator that has rooms has them, too. -/
theorem Spacious.relayed {L : Type} {A : Allocator (L × β)} {B : Allocator β}
    {holds : List Slice → β → Prop} (hB : Spacious B holds) (h : A.Relays B) (hblind : A.Blind) :
    Spacious A fun rooms b => holds rooms b.2 where
  toBlind := hblind
  alloc_memory ha := by
    obtain ⟨l, u, hcall, rfl⟩ := h.alloc ha
    exact hB.alloc_memory hcall
  free_memory hf := by
    rcases h.free hf with ⟨_, rfl⟩ | ⟨l, u, hcall, rfl⟩
    · rfl
    · exact hB.free_memory hcall
  resize_memory hn hs hr := by
    obtain ⟨l, u, hcall, rfl⟩ := h.resize hn hs hr
    exact hB.resize_memory hn hs hcall
  refused_memory hn hs hr := by
    obtain ⟨l, u, hcall, rfl⟩ := h.resize hn hs hr
    exact hB.refused_memory hn hs hcall
  resize_null hn := h.resize_null hn (hB.resize_null hn)
  resize_zero hn := h.resize_zero hn (hB.resize_zero hn)
  perm := hB.perm
  drop := hB.drop
  apart := hB.apart
  bounded := hB.bounded
  nonnull := hB.nonnull
  grant {rooms s size align block t} hh ha := by
    obtain ⟨l, u, hcall, rfl⟩ := h.alloc ha
    exact hB.grant (s := (s.1.2, s.2)) hh hcall
  refuse {rooms s size align e t} hh ha := by
    obtain ⟨l, u, hcall, rfl⟩ := h.alloc ha
    exact hB.refuse (s := (s.1.2, s.2)) hh hcall
  regrant {room rooms s old size align block t} hh hfit hn hs hr := by
    obtain ⟨l, u, hcall, rfl⟩ := h.resize hn hs hr
    exact hB.regrant (s := (s.1.2, s.2)) hh hfit hn hs hcall
  retain {rooms s old size align e t} hh hn hs hr := by
    obtain ⟨l, u, hcall, rfl⟩ := h.resize hn hs hr
    exact hB.retain (s := (s.1.2, s.2)) hh hn hs hcall
  release {room rooms s block t} hh hfit hf := by
    rcases h.free hf with ⟨_, rfl⟩ | ⟨l, u, hcall, rfl⟩
    · exact hB.drop hh
    · exact hB.release (s := (s.1.2, s.2)) hh hfit hcall
  pass {rooms s block t} hh hn hf := by
    rcases h.free hf with ⟨_, rfl⟩ | ⟨l, u, hcall, rfl⟩
    · exact hh
    · exact hB.pass (s := (s.1.2, s.2)) hh hn hcall

theorem Counters.relays (B : Allocator β) : (Counters.allocator B).Relays B where
  alloc ha := by
    obtain ⟨u, ⟨_, rfl, hcall, rfl⟩ | ⟨_, c, rfl, hcall, _, rfl⟩⟩ := Counters.alloc_ok ha
    · exact ⟨_, u, hcall, rfl⟩
    · exact ⟨c, u, hcall, rfl⟩
  resize hn hs hr := by
    obtain ⟨u, ⟨_, rfl, hcall, rfl⟩ | ⟨_, c, rfl, hcall, _, rfl⟩⟩ := Counters.resize_ok hn hs hr
    · exact ⟨_, u, hcall, rfl⟩
    · exact ⟨c, u, hcall, rfl⟩
  free hf := by
    rcases Counters.free_ok hf with hnull | ⟨_, u, c, hcall, _, rfl⟩
    · exact .inl hnull
    · exact .inr ⟨c, u, hcall, rfl⟩
  resize_null := Counters.resize_null
  resize_zero := Counters.resize_zero

theorem Allocator.watched_relays (B : Allocator β) : B.watched.Relays B where
  alloc ha := by
    obtain ⟨u, hcall, rfl⟩ := Act.noting_ok.1 ha
    exact ⟨_, u, hcall, rfl⟩
  resize hn hs hr := by
    rw [watched_resize hn hs] at hr
    obtain ⟨u, hcall, rfl⟩ := Act.noting_ok.1 hr
    exact ⟨_, u, hcall, rfl⟩
  free {s block t} hf := by
    cases hn : block.isNull with
    | true =>
      rw [watched_free_null hn] at hf
      obtain ⟨u, hcall, rfl⟩ := Act.below_ok.1 hf
      exact .inr ⟨_, u, hcall, rfl⟩
    | false =>
      rw [watched_free hn] at hf
      obtain ⟨u, hcall, rfl⟩ := Act.noting_ok.1 hf
      exact .inr ⟨_, u, hcall, rfl⟩
  resize_null := watched_resize_null
  resize_zero := watched_resize_zero

/-! ### Heaps that hand out less -/

namespace ScriptedHeap

variable {s t : ScriptedHeap × Machine} {block : Slice} {size align : Nat} {r : Answer}

theorem cut_memory (hcut : cut size align s = .ok (r, t)) : t.2.memory = s.2.memory := by
  cases hcut
  rfl

theorem alloc_memory (ha : alloc size align s = .ok (r, t)) : t.2.memory = s.2.memory := by
  simp only [alloc] at ha
  obtain ⟨answer, u, hcut, ha⟩ := Act.bind_ok.1 ha
  obtain ⟨_, v, hlog, ha⟩ := Act.bind_ok.1 ha
  have hsame := cut_memory hcut
  cases hlog
  cases answer with
  | error e =>
    cases ha
    exact hsame
  | ok block =>
    cases ha
    exact hsame

theorem resize_memory (hn : block.isNull = false) (hs : size ≠ 0)
    (hr : resize block size align s = .ok (r, t)) :
    (∀ fresh, r = .ok fresh → WrittenIn [fresh] s.2.memory t.2.memory) ∧
      ∀ e, r = .error e → t.2.memory = s.2.memory := by
  simp only [resize, hn, Bool.false_eq_true, if_false, if_neg hs] at hr
  split at hr
  · cases hr
    exact ⟨fun _ _ => .refl _ _, by simp⟩
  · obtain ⟨answer, u, hcut, hr⟩ := Act.bind_ok.1 hr
    obtain ⟨_, v, hlog, hr⟩ := Act.bind_ok.1 hr
    have hsame := cut_memory hcut
    cases hlog
    cases answer with
    | error e =>
      cases hr
      exact ⟨by simp, fun _ _ => hsame⟩
    | ok fresh =>
      cases hr
      refine ⟨fun _ heq => ?_, by simp⟩
      cases heq
      rw [← hsame]
      exact writtenIn_copyCommon _ _ _

theorem discreet : allocator.Discreet where
  alloc_memory := alloc_memory
  free_memory hf := by
    cases hf
    rfl
  resize_memory hn hs hr := (resize_memory hn hs hr).1 _ rfl
  refused_memory hn hs hr := (resize_memory hn hs hr).2 _ rfl
  resize_null {old size align} hn := by
    change resize old size align = alloc size align
    simp only [resize, hn, if_true]
  resize_zero {old align} hn := by
    change resize old 0 align = _
    simp only [resize, hn, Bool.false_eq_true, if_false, if_true]
    rfl

/-- A scripted heap that starts behind null has rooms, however much of them it hands out. -/
theorem spacious : Spacious allocator fun rooms h => Cut rooms h ∧ 0 < h.base where
  toBlind := blind
  toDiscreet := discreet
  perm hp hh := ⟨hh.1.perm hp, hh.2⟩
  drop hh := ⟨hh.1.tail, hh.2⟩
  apart hh := hh.1.apart
  bounded hh := hh.1.bounded
  nonnull hh room hmem := Nat.ne_of_gt (Nat.lt_of_lt_of_le hh.2 (hh.1.inside room hmem).1)
  grant {rooms s size align block t} hh ha := by
    refine ⟨(alloc_cut hh.1 ha).1 block _ rfl rfl (Nat.le_refl _), ?_⟩
    rw [(alloc_ok ha).1]
    exact hh.2
  refuse {rooms s size align e t} hh ha := by
    refine ⟨(alloc_cut hh.1 ha).2 e rfl, ?_⟩
    rw [(alloc_ok ha).1]
    exact hh.2
  regrant {room rooms s old size align block t} hh hfit hn hs hr := by
    refine ⟨resize_cut hh.1 hfit.1 hfit.2 hn hs hr rfl (Nat.le_refl _), ?_⟩
    rw [(resize_ok hr).1]
    exact hh.2
  retain {rooms s old size align e t} hh hn hs hr := by
    refine ⟨refuse_cut hh.1 hn hs hr, ?_⟩
    rw [(resize_ok hr).1]
    exact hh.2
  release hh _ hf := by
    cases hf
    exact ⟨(hh.1.counted _ _ _).tail, hh.2⟩
  pass hh _ hf := by
    cases hf
    exact ⟨hh.1.counted _ _ _, hh.2⟩

end ScriptedHeap
end AllocChain
