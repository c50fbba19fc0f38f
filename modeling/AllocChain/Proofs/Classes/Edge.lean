import AllocChain.Proofs.Classes.Custody
import AllocChain.Proofs.Classes.Resize
import AllocChain.Proofs.Classes.Shape
import AllocChain.Proofs.Edges

/-!
Just when a general-purpose allocator breaks off. In a table that has its shape all numbers that
the operations compute are words and all positions that they look at exist, so a request breaks off
where the allocator behind does, in the one call that is made there, and nowhere else
(`alloc_breaksJust`). The same goes for a resize of one of its blocks, and what is given back breaks
off only if giving back behind does (`breaksAt`).
-/

namespace AllocChain.GeneralPurpose

open Memory

variable {β : Type}

/-- How a request breaks off: all buckets of its class are full and the request for a bucket breaks
off behind, or it is a large one and breaks off behind itself. -/
inductive Breaks (below : Nat → Nat → Breakdown → Prop) (size align : Nat)
    (s : (GeneralPurpose × β) × Machine) : Breakdown → Prop
  | bucket {c bs brk} : s.1.1.sizeClass size align = .ok (some c) →
      s.1.1.classes.toList[c]? = some bs → (∀ b ∈ bs, b.isFull = true) →
      below (s.1.1.bucketSize / 2 ^ c * 2 ^ c) (2 ^ c) brk → Breaks below size align s brk
  | large {brk} : s.1.1.sizeClass size align = .ok none → below size align brk →
      Breaks below size align s brk

/-- How a resize of one of the blocks breaks off: the block leaves its slot and the request for the
new one breaks off, or it is a large one and its resize breaks off behind. -/
inductive ResizeBreaks (below : Nat → Nat → Breakdown → Prop)
    (behind : Slice → Nat → Nat → Breakdown → Prop) (mem : Slice) (size align : Nat)
    (s : (GeneralPurpose × β) × Machine) : Breakdown → Prop
  | moved {c i k brk} : s.1.1.owner mem.addr = .ok (some (.slot c i k)) →
      s.1.1.sizeClass size align ≠ .ok (some c) → Breaks below size align s brk →
      ResizeBreaks below behind mem size align s brk
  | large {i entry brk} : s.1.1.owner mem.addr = .ok (some (.large i)) →
      s.1.1.large[i]? = some entry → behind entry size align brk →
      ResizeBreaks below behind mem size align s brk

/-- The edges of a general-purpose allocator over one with edges `E`. -/
def edges (E : Edges β) : Edges (GeneralPurpose × β) where
  alloc size align s brk := ValidRequest size align ∧
    Breaks (fun size align => E.alloc size align (s.1.2, s.2)) size (normalizeAlign align) s brk
  resize mem size align s brk := ValidRequest size align ∧
    ResizeBreaks (fun size align => E.alloc size align (s.1.2, s.2))
      (fun mem size align => E.resize mem size align (s.1.2, s.2)) mem size (normalizeAlign align)
      s brk

variable {B : Allocator β} {E : Edges β} {holds : List Slice → β × Machine → Prop}
  {s : (GeneralPurpose × β) × Machine} {mem : Slice} {out : List Slice}
  {c k size align : Nat} {below : Nat → Nat → Breakdown → Prop}

/-! ### Requests -/

theorem bucketWithRoom_breaksJust (hs : s.1.1.Shaped) {bs : List Bucket}
    (hbs : s.1.1.classes.toList[c]? = some bs)
    (hcall : ∀ size align, (B.alloc size align).BreaksJust (below size align) (s.1.2, s.2)) :
    (bucketWithRoom B c).BreaksJust (fun brk => (∀ b ∈ bs, b.isFull = true) ∧
      below (s.1.1.bucketSize / 2 ^ c * 2 ^ c) (2 ^ c) brk) s := by
  simp only [bucketWithRoom]
  refine .own_bind (.lift_bind (bucketsOf_ok.2 hbs) ?_)
  cases hfind : bs.findIdx? (!·.isFull) with
  | some index =>
    obtain ⟨hlt, hroom, _⟩ := List.findIdx?_eq_some_iff_getElem.1 hfind
    refine .of_only (.pure _ _) fun brk hbrk => ?_
    simp [hbrk.1 _ (List.getElem_mem hlt)] at hroom
  | none =>
    have hfull : ∀ b ∈ bs, b.isFull = true := by
      simpa using List.findIdx?_eq_none_iff.1 hfind
    have hsize : s.1.1.bucketSize / 2 ^ c * 2 ^ c < wordLimit :=
      Nat.lt_of_le_of_lt (Nat.le_trans (Nat.div_mul_le_self _ _) hs.size) (by decide)
    refine .congr (.lift_bind (Word.mul_of_lt hsize) (.before (.below (hcall _ _)) ?_))
      fun brk => (and_iff_right hfull).symm
    intro answer u _
    cases answer with
    | error e => exact .pure _ _
    | ok storage =>
      obtain ⟨occupied, hocc⟩ := insert_returns hbs
      exact .emit_bind (.lift_bind hocc (.setOwn_bind (.pure _ _)))

theorem allocSmall_breaksJust (hs : s.1.1.Shaped)
    (hclass : s.1.1.sizeClass size align = .ok (some c))
    (hcall : ∀ size align, (B.alloc size align).BreaksJust (below size align) (s.1.2, s.2)) :
    (allocSmall B c size).BreaksJust (Breaks below size align s) s := by
  obtain ⟨hc, hfits⟩ := sizeClass_le hclass
  obtain ⟨bs, hbs⟩ := class_returns (g := s.1.1) hc
  simp only [allocSmall]
  refine .congr (.before (bucketWithRoom_breaksJust hs hbs hcall) ?_) fun brk => ?_
  · intro found u hroom
    rcases hs.roomed hfits (bucketWithRoom_ok hroom) with ⟨e, rfl, _⟩ | ⟨i, rfl, hready⟩
    · exact .pure _ _
    · obtain ⟨b, ⟨bs, hbs, hb⟩, _⟩ := hready.room
      obtain ⟨addr, b', htake⟩ := hready.takeSlot ⟨bs, hbs, hb⟩
      exact .own_bind (.lift_bind (bucketsOf_ok.2 hbs) (.lift_bind (elementAt_ok.2 hb)
        (.lift_bind htake (.setOwn_bind (.emit_bind (.pure _ _))))))
  · constructor
    · rintro ⟨hfull, hbelow⟩
      exact .bucket hclass hbs hfull hbelow
    · intro hbrk
      cases hbrk with
      | bucket hclass' hbs' hfull hbelow =>
        cases hclass.symm.trans hclass'
        cases hbs.symm.trans hbs'
        exact ⟨hfull, hbelow⟩
      | large hclass' _ => cases hclass.symm.trans hclass'

theorem allocLarge_breaksJust (hclass : s.1.1.sizeClass size align = .ok none)
    (hcall : ∀ size align, (B.alloc size align).BreaksJust (below size align) (s.1.2, s.2)) :
    (allocLarge B size align).BreaksJust (Breaks below size align s) s := by
  simp only [allocLarge]
  refine .congr (.before (.below (hcall size align)) ?_) fun brk => ⟨.large hclass, fun hbrk => ?_⟩
  · intro answer u _
    cases answer with
    | error e => exact .pure _ _
    | ok block => exact .own_bind (.setOwn_bind (.emit_bind (.pure _ _)))
  · cases hbrk with
    | bucket hclass' _ _ _ => cases hclass.symm.trans hclass'
    | large _ hbelow => exact hbelow

theorem serve_breaksJust (hs : s.1.1.Shaped)
    (hcall : ∀ size align, (B.alloc size align).BreaksJust (below size align) (s.1.2, s.2)) :
    (serve B size align).BreaksJust (Breaks below size align s) s := by
  obtain ⟨found, hclass⟩ := s.1.1.sizeClass_returns size align
  simp only [serve]
  refine .own_bind (.lift_bind hclass ?_)
  cases found with
  | some c => exact allocSmall_breaksJust hs hclass hcall
  | none => exact allocLarge_breaksJust hclass hcall

/-- A valid request breaks off just where the bucket or the large block behind does. -/
theorem alloc_breaksJust (hs : s.1.1.Shaped)
    (hcall : ∀ size align, (B.alloc size align).BreaksJust (below size align) (s.1.2, s.2)) :
    (GeneralPurpose.alloc B size align).BreaksJust
      (fun brk => ValidRequest size align ∧ Breaks below size (normalizeAlign align) s brk) s :=
  .allocBy fun _ => serve_breaksJust hs hcall

/-! ### Resizes -/

theorem exchanging_eq_error_iff {g : GeneralPurpose} {i old : Nat} {brk : Breakdown}
    {r : Except Breakdown (Answer × β × Machine)} :
    exchanging g i old size r = .error brk ↔ r = .error brk := by
  cases r <;> simp [exchanging, Except.map]

/-- A block is adjusted unless it has to leave its slot, or its resize behind breaks off. -/
theorem adjust_breaksJust (hB : Contract B holds) (hE : B.BreaksAt E holds)
    (hk : Kept (NonNull holds) (mem :: out) s) (hs : s.1.1.Shaped) (hpos : size ≠ 0) :
    (adjust B mem size (2 ^ k)).BreaksJust (ResizeBreaks
      (fun size align => E.alloc size align (s.1.2, s.2))
      (fun mem size align => E.resize mem size align (s.1.2, s.2)) mem size (2 ^ k) s) s := by
  obtain ⟨o, span, howner, ho, hst⟩ := hk.found hB.meets List.mem_cons_self
  have hnull := Slice.isNull_eq_false.2 (hk.nonnull hB List.mem_cons_self)
  cases o with
  | slot c i j =>
    by_cases hclass : s.1.1.sizeClass size (2 ^ k) = .ok (some c)
    · refine .of_only (.of_ok (adjust_within howner hclass)) fun brk hbrk => ?_
      cases hbrk with
      | moved howner' hclass' _ =>
        cases howner.symm.trans howner'
        exact hclass' hclass
      | large howner' _ _ => cases howner.symm.trans howner'
    · have hmove : (relocate (GeneralPurpose.alloc B) (free B) mem size (2 ^ k)).BreaksJust
          (Breaks (fun size align => E.alloc size align (s.1.2, s.2)) size (2 ^ k) s) s := by
        refine (lending hB).relocate_breaksJust hk ?_ fun {fresh u} ha =>
          ((lending hB).copied hk ha).free_returns hB.meets (fun hh => hE.free hh.1) hnull
        change (GeneralPurpose.alloc B size (2 ^ k)).BreaksJust _ s
        rw [GeneralPurpose.alloc, allocBy_two_pow (Nat.pos_of_ne_zero hpos)]
        exact serve_breaksJust hs fun size align => hE.alloc size align hk.backed.1
      intro brk
      rw [adjust_beyond howner hclass, hmove brk]
      refine ⟨.moved howner hclass, fun hbrk => ?_⟩
      cases hbrk with
      | moved _ _ hbrk => exact hbrk
      | large howner' _ _ => cases howner.symm.trans howner'
  | large i =>
    obtain ⟨rest, hall, _⟩ := held_large ho
    have hbehind := hE.resize (2 ^ k) (hB.nonNull.supply.perm hall hk.backed).1 hpos
    intro brk
    rw [adjust_large howner ho, exchanging_eq_error_iff, hbehind brk]
    refine ⟨fun hbrk => .large howner ho hbrk, fun hbrk => ?_⟩
    cases hbrk with
    | moved howner' _ _ => cases howner.symm.trans howner'
    | large howner' hi hbrk =>
      cases howner.symm.trans howner'
      cases ho.symm.trans hi
      exact hbrk

/-- A general-purpose allocator breaks off just as the one behind it makes it. -/
theorem breaksAt (hB : Contract B holds) (hE : B.BreaksAt E holds) :
    (allocator B).BreaksAt (edges E) fun out s => Kept (NonNull holds) out s ∧ s.1.1.Shaped where
  alloc size align hh :=
    alloc_breaksJust hh.2 fun size align => hE.alloc size align hh.1.backed.1
  resize align hh hpos := by
    refine (lending hB).resize_breaksJust hh.1 hpos ?_
    rintro ⟨k, hk⟩
    rw [hk]
    exact adjust_breaksJust hB hE hh.1 hh.2 hpos
  free hh := hh.1.free_returns hB.meets (fun hh => hE.free hh.1)
    (Slice.isNull_eq_false.2 (hh.1.nonnull hB List.mem_cons_self))

end AllocChain.GeneralPurpose
