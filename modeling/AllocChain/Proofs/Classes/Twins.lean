import AllocChain.Proofs.Classes.Custody
import AllocChain.Proofs.Classes.Resize
import AllocChain.Proofs.Classes.Shape
import AllocChain.Proofs.Twins

/-!
Two runs of a general-purpose allocator. The allocator reads nothing from memory, and in a table
that has its shape all that it computes is there, so over an allocator that is its own twin it is
its own twin (`GeneralPurpose.twins`). What it does with a slice that nobody handed out is the same
in both runs, too (`free_alike`, `resize_alike`).
-/

namespace AllocChain.GeneralPurpose

open Memory

variable {β : Type} {B : Allocator β} {T : Terms}
  {holds holds' : List Slice → β × Machine → Prop}
  {rel : Nat → List Slice → β × Machine → β × Machine → Prop} {n : Nat} {out : List Slice}
  {s s' : (GeneralPurpose × β) × Machine} {mem : Slice} {c i k size align : Nat}

/-- The blocks are kept in a table that has its shape. -/
abbrev Shelved (holds : List Slice → β × Machine → Prop) (out : List Slice)
    (s : (GeneralPurpose × β) × Machine) : Prop :=
  Kept (NonNull holds) out s ∧ s.1.1.Shaped

/-- The tables are the same, and what they hold behind is held alike. -/
abbrev Twin (rel : Nat → List Slice → β × Machine → β × Machine → Prop) (n : Nat)
    (_out : List Slice) (s s' : (GeneralPurpose × β) × Machine) : Prop :=
  Twins.Atop held rel n s s'

theorem paired (hp : Paired (Shelved holds) (Shelved holds') (Twin rel n) out s s') :
    Paired (NonNull holds) (NonNull holds') (rel n) s.1.1.held (s.1.2, s.2) (s'.1.2, s'.2) :=
  hp.related.paired hp.left.1.backed hp.right.1.backed

/-- A bucket with room is found or put up alike. -/
theorem bucketWithRoom_alike (hB : Twins T B holds holds' rel)
    (hp : Paired (Shelved holds) (Shelved holds') (Twin rel (n + 1)) out s s')
    (hc : c < classCount) (hfits : 2 ^ c ≤ s.1.1.bucketSize) :
    Act.Alike T.may (fun found t t' => t'.1.1 = t.1.1 ∧
        Paired (NonNull holds) (NonNull holds') (rel n) t.1.1.held (t.1.2, t.2) (t'.1.2, t'.2) ∧
        ∀ e, found = .error e → T.refusal e)
      (bucketWithRoom B c) (bucketWithRoom B c) s s' := by
  have hN := hB.nonNull
  have hbelow := paired hp
  obtain ⟨bs, hbs⟩ := class_returns (g := s.1.1) hc
  simp only [bucketWithRoom]
  refine .own_bind hp.related.own (.lift_ok_bind (bucketsOf_ok.2 hbs) ?_)
  cases bs.findIdx? (!·.isFull) with
  | some index => exact .pure ⟨hp.related.own, hbelow.mono hN.fewer, by simp⟩
  | none =>
    have hsize : s.1.1.bucketSize / 2 ^ c * 2 ^ c < wordLimit :=
      Nat.lt_of_le_of_lt (Nat.le_trans (Nat.div_mul_le_self _ _) hp.left.2.size) (by decide)
    have hvalid : ValidRequest (s.1.1.bucketSize / 2 ^ c * 2 ^ c) (2 ^ c) :=
      validRequest_two_pow
        (Nat.mul_pos (Nat.div_pos hfits (Nat.two_pow_pos c)) (Nat.two_pow_pos c)) c
    refine .lift_ok_bind (Word.mul_of_lt hsize)
      (.below_bind (hN.alloc_paired hbelow (T.fair_of_valid hvalid)) ?_)
    intro answer u u' _ _ hpost
    cases answer with
    | error e =>
      refine .pure ⟨hp.related.own, hpost.1, fun _ heq => ?_⟩
      cases heq
      exact hpost.2 hvalid
    | ok storage =>
      obtain ⟨occupied, hocc⟩ := insert_returns hbs
      refine .emit_bind (.lift_ok_bind hocc (.setOwn_bind (.pure ⟨rfl, ?_, by simp⟩)))
      exact hN.paired_perm (held_append hbs _).symm (hN.report hpost _)

theorem allocSmall_alike (hB : Twins T B holds holds' rel)
    (hp : Paired (Shelved holds) (Shelved holds') (Twin rel (n + 1)) out s s')
    (hclass : s.1.1.sizeClass size align = .ok (some c)) {valid : Prop} :
    Act.Alike T.may (Answered T (Twin rel n) valid out out) (allocSmall B c size)
      (allocSmall B c size) s s' := by
  obtain ⟨hc, hfits⟩ := sizeClass_le hclass
  simp only [allocSmall]
  refine .bind (bucketWithRoom_alike hB hp hc hfits) ?_
  rintro found u u' hroom _ ⟨hown, hbelow, hrefused⟩
  rcases hp.left.2.roomed hfits (bucketWithRoom_ok hroom) with ⟨e, rfl, _⟩ | ⟨i, rfl, hready⟩
  · exact .pure ⟨⟨hown, hbelow.related⟩, fun _ => hrefused e rfl⟩
  · obtain ⟨b, ⟨bs, hbs, hb⟩, _⟩ := hready.room
    obtain ⟨addr, b', htake⟩ := hready.takeSlot ⟨bs, hbs, hb⟩
    refine .own_bind hown (.lift_ok_bind (bucketsOf_ok.2 hbs) (.lift_ok_bind (elementAt_ok.2 hb)
      (.lift_ok_bind htake (.setOwn_bind (.emit_bind (.pure ⟨rfl, ?_⟩))))))
    have hsame := held_set hbs hb (Bucket.takeSlot_shape htake).storage
    exact (hB.nonNull.report (hB.nonNull.paired_perm hsame.symm hbelow) _).related

theorem allocLarge_alike (hB : Twins T B holds holds' rel)
    (hp : Paired (Shelved holds) (Shelved holds') (Twin rel (n + 1)) out s s')
    (hvalid : ValidRequest size align) :
    Act.Alike T.may (Answered T (Twin rel n) (ValidRequest size align) out out)
      (allocLarge B size align) (allocLarge B size align) s s' := by
  simp only [allocLarge]
  refine .below_bind (hB.nonNull.alloc_paired (paired hp) (T.fair_of_valid hvalid)) ?_
  intro answer u u' _ _ hpost
  cases answer with
  | error e => exact .pure ⟨⟨hp.related.own, hpost.1.related⟩, hpost.2⟩
  | ok block =>
    refine .own_bind hp.related.own (.setOwn_bind (.emit_bind (.pure ⟨rfl, ?_⟩)))
    exact (hB.nonNull.report (hB.nonNull.paired_perm held_push.symm hpost) _).related

theorem alloc_alike (hB : Twins T B holds holds' rel)
    (hp : Paired (Shelved holds) (Shelved holds') (Twin rel (n + 1)) out s s') :
    Act.Alike T.may (Answered T (Twin rel n) (ValidRequest size align) out out)
      (GeneralPurpose.alloc B size align) (GeneralPurpose.alloc B size align) s s' := by
  refine .allocBy (hp.related.fewer hB.toKindred) fun k hs => ?_
  obtain ⟨found, hclass⟩ := s.1.1.sizeClass_returns size (2 ^ k)
  simp only [serve]
  refine .own_bind hp.related.own (.lift_ok_bind hclass ?_)
  cases found with
  | some c => exact allocSmall_alike hB hp hclass
  | none => exact allocLarge_alike hB hp (validRequest_two_pow hs k)

theorem releaseSlot_alike (hB : Twins T B holds holds' rel)
    (hp : Paired (Shelved holds) (Shelved holds') (Twin rel n) out s s') {span : Slice}
    (hspan : s.1.1.Spans (.slot c i k) span) :
    Act.Alike T.may (fun _ => Twin rel n []) (releaseSlot B c i k) (releaseSlot B c i k) s s' := by
  have hN := hB.nonNull
  obtain ⟨bs, b, hc, hi, hk, _⟩ := hspan
  have hsound := (hp.left.2.bucket ⟨bs, hc, hi⟩).toSound
  obtain ⟨b', hrel, _⟩ := Bucket.releaseSlot_returns hsound hk
  have hstorage := (Bucket.releaseSlot_shape hrel).storage
  have hfreed : Paired (NonNull holds) (NonNull holds') (rel n)
      (b'.storage :: (s.1.1.setBuckets c (bs.eraseIdx i)).held) (s.1.2, s.2) (s'.1.2, s'.2) := by
    rw [hstorage]
    exact hN.paired_perm (held_eraseIdx hc hi) (paired hp)
  simp only [releaseSlot]
  refine .own_bind hp.related.own (.lift_ok_bind (bucketsOf_ok.2 hc)
    (.lift_ok_bind (elementAt_ok.2 hi) (.lift_ok_bind hrel (.emit_bind ?_))))
  by_cases hzero : b'.usedCount = 0
  · have hreported := hN.report (hN.report hfreed [.smallFree c k])
      [.bucketReleased b'.objSize b'.storage.addr]
    have hlast := hN.free_paired hreported
    rw [if_pos hzero]
    by_cases hnil : bs.eraseIdx i = []
    · rw [if_pos hnil]
      obtain ⟨occupied, hocc⟩ := erase_returns hc
      exact .lift_ok_bind hocc (.setOwn_bind (.emit_bind (.below (hlast.imp
        fun _ _ _ _ _ hrest => ⟨rfl, hrest.related⟩))))
    · rw [if_neg hnil]
      exact .pure_bind (.setOwn_bind (.emit_bind (.below (hlast.imp
        fun _ _ _ _ _ hrest => ⟨rfl, hrest.related⟩))))
  · rw [if_neg hzero]
    have hsame := held_set hc hi hstorage
    exact .setOwn ⟨rfl, (hN.report (hN.paired_perm hsame.symm (paired hp)) _).related⟩

/-- Whatever slice is named, it is given back alike, or left alone. -/
theorem free_alike (hB : Twins T B holds holds' rel)
    (hp : Paired (Shelved holds) (Shelved holds') (Twin rel n) out s s') (mem : Slice) :
    Act.Alike T.may (fun _ => Twin rel n []) (GeneralPurpose.free B mem)
      (GeneralPurpose.free B mem) s s' := by
  have hN := hB.nonNull
  simp only [GeneralPurpose.free]
  cases hn : mem.isNull with
  | true => exact .pure hp.related
  | false =>
    obtain ⟨found, howner⟩ := owner_returns hp.left.1.sound
      (hp.left.1.bounded hB.service.meets) mem.addr
    refine .own_bind hp.related.own (.lift_ok_bind howner ?_)
    rcases found with _ | ⟨c, i, k⟩ | i
    · exact .emit ⟨hp.related.own, (hN.report (paired hp) _).related⟩
    · obtain ⟨span, hspan, _⟩ := owner_spans hp.left.1.sound howner
      exact releaseSlot_alike hB hp hspan
    · obtain ⟨entry, hi, _⟩ := owner_large howner
      obtain ⟨rest, hall, _, hswap⟩ := held_large hi
      simp only [releaseLarge]
      refine .own_bind hp.related.own (.lift_ok_bind (elementAt_ok.2 hi)
        (.setOwn_bind (.emit_bind (.below ?_))))
      refine (hN.free_paired (hN.report (hN.paired_perm hall (paired hp)) _)).imp ?_
      exact fun _ _ _ _ _ hrest => ⟨rfl, (hN.paired_perm hswap.symm hrest).related⟩

/-- What a general-purpose allocator offers while its table has its shape. -/
theorem shelved_service (hB : Contract B holds) : Service (allocator B) (Shelved holds) :=
  ((lending hB).contract.service (orderly B)).during (shaped_steady B)

theorem kindred (hB : Twins T B holds holds' rel) :
    Kindred T.open (allocator B) (Shelved holds) (Shelved holds') (Twin rel) where
  left := (shelved_service hB.service.toContract).keeper
  right := (shelved_service hB.service'.toContract).keeper
  fewer h := h.fewer hB.toKindred
  perm _ h := h
  mirror hm h := h.mirror hB.toKindred hm
  write {n out s s' w w'} hp hw hw' hmirror := by
    have hin : ∀ block ∈ out, ∃ mem ∈ s.1.1.held, block.Inside mem :=
      fun block hb => hp.left.1.inside hB.service.meets hb
    exact ⟨hp.related.own, hB.nonNull.write (paired hp) (hw.inside hin) (hw'.inside hin) hmirror⟩
  low {n out s s'} hp := by
    refine (hB.nonNull.low (paired hp)).imp_right fun hlow block hb => ?_
    obtain ⟨mem, hmem, hin⟩ := hp.left.1.inside hB.service.meets hb
    exact Nat.le_trans hin.2 (hlow mem hmem)
  alloc {n out s s' size align} hp _ := by
    change Act.Alike T.may (Answered T (Twin rel n) (ValidRequest size align) out out) _ _ s s'
    exact alloc_alike hB hp
  free hp := free_alike hB hp _
  free_null hp _ := free_alike hB hp _

/-- Whatever slice is named, it is adjusted alike, unless that would copy bytes onto one another;
only one that belongs to nothing is refused for another reason than that no memory is to be had. -/
theorem adjust_alike (hB : Twins T B holds holds' rel)
    (hp : Paired (Shelved holds) (Shelved holds') (Twin rel (n + 1)) out s s')
    (hn : mem.isNull = false) (hs : 0 < size)
    (hover : ∀ brk, Overlaps B mem size (2 ^ k) s brk → T.may) :
    Act.Alike T.may (Answered T (Twin rel n) (s.1.1.owner mem.addr ≠ .ok none) out out)
      (adjust B mem size (2 ^ k)) (adjust B mem size (2 ^ k)) s s' := by
  have hN := hB.nonNull
  have hvalid := validRequest_two_pow hs k
  have hfewer := hp.related.fewer hB.toKindred
  obtain ⟨found, howner⟩ := owner_returns hp.left.1.sound
    (hp.left.1.bounded hB.service.meets) mem.addr
  simp only [adjust]
  refine .own_bind hp.related.own (.lift_ok_bind howner ?_)
  rcases found with _ | ⟨c, i, j⟩ | i
  · exact .pure ⟨hfewer, fun hfound => absurd howner hfound⟩
  · obtain ⟨class', hclass⟩ := s.1.1.sizeClass_returns size (2 ^ k)
    refine .lift_ok_bind hclass ?_
    by_cases hsame : class' = some c
    · simp only [if_pos hsame]
      exact .emit_bind (.pure ⟨hp.related.own,
        (hN.report ((paired hp).mono hN.fewer) _).related⟩)
    · simp only [if_neg hsame]
      have halloc : Act.Alike T.may
          (Answered T (Paired (Shelved holds) (Shelved holds') (Twin rel n))
            (ValidRequest size (2 ^ k)) out out) (GeneralPurpose.alloc B size (2 ^ k))
          (GeneralPurpose.alloc B size (2 ^ k)) s s' := (kindred hB).alloc_paired hp trivial
      refine .relocate halloc (fun e t t' hrefused => ?_) (fun fresh t t' ha _ => ?_)
        fun fresh t t' _ _ hnew => ?_
      · exact ⟨hrefused.1.related, fun _ => hrefused.2 hvalid⟩
      · by_cases hapart : mem.CopiesApart fresh
        · exact .inr hapart
        · have hother : s.1.1.sizeClass size (2 ^ k) ≠ .ok (some c) := fun heq =>
            hsame (Except.ok.inj (hclass.symm.trans heq))
          rw [← normalizeAlign_two_pow k] at ha hother
          exact .inl (hover _ ⟨⟨hn, Nat.ne_of_gt hs, k, normalizeAlign_two_pow k⟩,
            ⟨c, i, j, howner, hother⟩, fresh, t, ha, hapart, rfl⟩)
      · have hcopied := (kindred hB).change hnew fun m =>
          (writtenIn_copyCommon m mem fresh).mem List.mem_cons_self
        exact free_alike hB hcopied mem
  · obtain ⟨entry, hi, _⟩ := owner_large howner
    obtain ⟨rest, hall, hset, _⟩ := held_large hi
    simp only [resizeLarge]
    refine .own_bind hp.related.own (.lift_ok_bind (elementAt_ok.2 hi) (.below_bind
      (hN.resize_paired (hN.paired_perm hall (paired hp)) (owner_large_isNull howner hi hn)
        (Nat.ne_of_gt hs) (T.fair_of_valid hvalid)) ?_))
    intro answer u u' _ _ hpost
    cases answer with
    | error e =>
      exact .pure ⟨⟨hp.related.own, (hN.paired_perm hall.symm hpost.1).related⟩,
        fun _ => hpost.2 hvalid⟩
    | ok resized =>
      refine .setOwn_bind (.emit_bind (.pure ⟨rfl, ?_⟩))
      exact (hN.report (hN.paired_perm (hset _).symm hpost) _).related

/-- A general-purpose allocator is its own twin if the allocator behind it is. -/
theorem twins (hB : Twins T B holds holds' rel) :
    Twins T.open (allocator B) (Shelved holds) (Shelved holds') (Twin rel) := by
  have hresize : (allocator B).resize =
      resizeBy (allocator B).alloc (allocator B).free (adjust B) := rfl
  refine (kindred hB).twins (shelved_service hB.service.toContract)
    (shelved_service hB.service'.toContract) hresize fun {n out s s' old size k} hp hn hs => ?_
  have hfound : s.1.1.owner old.addr ≠ .ok none := by
    obtain ⟨o, _, howner, _⟩ := hp.left.1.found hB.service.meets List.mem_cons_self
    rw [howner]
    simp
  have hover : ∀ brk, ¬ Overlaps B old size (2 ^ k) s brk := by
    intro brk hover
    obtain ⟨o, span, howner, ho, hst⟩ := hp.left.1.found hB.service.meets List.mem_cons_self
    obtain ⟨fresh, t, ha, hmeet, _⟩ := hover.copied
    exact hmeet (hp.left.1.copiesApart hB.service.meets ha ho hst.addr.symm hst.len)
  refine (adjust_alike hB hp hn hs fun brk h => absurd h (hover brk)).imp
    fun r t t' _ _ hpost => ?_
  cases r with
  | ok block => exact hpost
  | error e => exact ⟨hpost.1, fun _ => hpost.2 hfound⟩

/-- Whatever slice is named, resizing it is answered alike, with the same exception. -/
theorem resize_alike (hB : Twins T B holds holds' rel)
    (hp : Paired (Shelved holds) (Shelved holds') (Twin rel (n + 1)) out s s') (mem : Slice)
    (size align : Nat) (hover : ∀ brk, Overlaps B mem size align s brk → T.may) :
    Act.Alike T.may (fun _ => Twin rel n []) ((allocator B).resize mem size align)
      ((allocator B).resize mem size align) s s' := by
  have hfewer : Paired (Shelved holds) (Shelved holds') (Twin rel n) out s s' :=
    hp.mono fun h => h.fewer hB.toKindred
  cases hn : mem.isNull with
  | true =>
    rw [(orderly B).resize_null hn]
    refine (alloc_alike hB hp).imp fun r t t' _ _ hpost => ?_
    cases r with
    | ok block => exact hpost
    | error e => exact hpost.1
  | false =>
    by_cases hs : size = 0
    · subst hs
      rw [(orderly B).resize_zero hn]
      refine .bind (free_alike hB hfewer mem) fun _ t t' _ _ hpost => .pure hpost
    by_cases hpow : ∃ k, normalizeAlign align = 2 ^ k
    · have hproper : Proper mem size align := ⟨hn, hs, hpow⟩
      obtain ⟨k, hk⟩ := hpow
      rw [resize_proper hproper, hk]
      have hlater : ∀ brk, Overlaps B mem size (2 ^ k) s brk → T.may := fun brk h => hover brk (by
        refine ⟨hproper, ?_, ?_⟩
        · rw [hk, ← normalizeAlign_two_pow k]
          exact h.small
        · rw [hk, ← normalizeAlign_two_pow k]
          exact h.copied)
      refine (adjust_alike hB hp hn (Nat.pos_of_ne_zero hs) hlater).imp fun r t t' _ _ hpost => ?_
      cases r with
      | ok block => exact hpost
      | error e => exact hpost.1
    · rw [show (allocator B).resize mem size align = pure (.error (.invalidLayout size align)) from
        resizeBy_invalid hn hs hpow]
      exact .pure hfewer.related

/-- Destroying a table gives back the same buckets and large blocks in both runs. -/
theorem destroy_alike (hB : Twins T B holds holds' rel)
    (hp : Paired (Shelved holds) (Shelved holds') (Twin rel n) out s s') :
    Act.Alike T.may (fun _ => Twin rel n []) (destroy B) (destroy B) s s' := by
  have hN := hB.nonNull
  have hnil : held { s.1.1 with
      classes := Vector.replicate classCount [], occupied := .empty, large := [] } = [] :=
    held_new 0
  have hback : Paired (NonNull holds) (NonNull holds') (rel n)
      (s.1.1.classes.toList.flatten.map (·.storage) ++ s.1.1.large) (s.1.2, s.2)
      (s'.1.2, s'.2) := paired hp
  simp only [destroy]
  refine .own_bind hp.related.own (.setOwn_bind (.below_bind (hN.freeAll hback) ?_))
  intro _ u u' _ _ hlarge
  rw [← List.append_nil s.1.1.large] at hlarge
  refine .below_bind (hN.freeAll hlarge) ?_
  intro _ v v' _ _ hrest
  split
  · refine .emit ⟨rfl, ?_⟩
    simp only [hnil]
    exact (hN.report hrest _).related
  · refine .pure ⟨rfl, ?_⟩
    simp only [hnil]
    exact hrest.related

end AllocChain.GeneralPurpose
