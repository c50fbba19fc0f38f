import AllocChain.Proofs.Alike
import AllocChain.Proofs.Service

/-!
Two runs of one allocator, side by side. `Twins T A holds holds' rel` says that what is asked of `A`
in two states that `rel n` relates is answered alike, as long as `n` more requests are made at most;
`holds` and `holds'` are what is known of each state by itself. The terms `T` say what the
comparison is for: whether calls may break off, whether the second run is the first over again,
which requests are made, and why a valid one may be refused. An allocator that never breaks off is
one that is its own twin on terms that do not allow it.
-/

namespace AllocChain

open Memory

variable {β γ : Type}

/-- An address that no block reaches beyond; rounding up below it cannot leave the words. -/
abbrev addressLimit : Nat := 2 ^ 62

/-- What the deed asks for is `fair`: the layout of a request, or of a resize to some bytes. -/
def Deed.Asks (fair : Nat → Nat → Prop) : Deed → Prop
  | .alloc size align | .allocZeroed size align => fair size align
  | .resize block size align => block.isNull = false ∧ size = 0 ∨ fair size align
  | _ => True

/-- How many calls a deed makes. -/
def Deed.calls : Deed → Nat
  | .write _ _ => 0
  | _ => 1

/-- The deeds are the same, but for the byte that is written. -/
inductive Deed.Like : Deed → Deed → Prop
  | refl (d : Deed) : Like d d
  | write (addr : Nat) (byte byte' : UInt8) : Like (.write addr byte) (.write addr byte')

/-- What two runs are compared for. -/
structure Terms where
  /-- Calls may break off. -/
  may : Prop
  /-- The second run is the first one over again. -/
  mirror : Prop
  /-- The requests that are made. -/
  fair : Nat → Nat → Prop
  /-- The reasons to refuse a valid request. -/
  refusal : AllocError → Prop
  fair_of_valid : ∀ {size align}, ValidRequest size align → fair size align
  exhausted : ∀ size align, refusal (.outOfMemory size align)

/-- The terms on which every request is made. -/
def Terms.open (T : Terms) : Terms :=
  { T with fair := fun _ _ => True, fair_of_valid := fun _ => trivial }

/-- States after the same answer: one more block is out, or those of `kept` still are, and a valid
request was refused for one of the reasons. -/
def Answered (T : Terms) (rel : List Slice → γ × Machine → γ × Machine → Prop) (valid : Prop)
    (out kept : List Slice) : Answer → γ × Machine → γ × Machine → Prop
  | .ok block, t, t' => rel (block :: out) t t'
  | .error e, t, t' => rel kept t t' ∧ (valid → T.refusal e)

/-- Two states in which the blocks of `out` are outstanding, and how they are related. -/
structure Paired (holds holds' : List Slice → γ × Machine → Prop)
    (rel : List Slice → γ × Machine → γ × Machine → Prop) (out : List Slice)
    (s s' : γ × Machine) : Prop where
  left : holds out s
  right : holds' out s'
  related : rel out s s'

/-- In related states requests are answered alike, and what is given back is taken back alike. -/
structure Kindred (T : Terms) (A : Allocator γ) (holds holds' : List Slice → γ × Machine → Prop)
    (rel : Nat → List Slice → γ × Machine → γ × Machine → Prop) : Prop where
  left : Keeper A holds
  right : Keeper A holds'
  fewer {n out s s'} : rel (n + 1) out s s' → rel n out s s'
  perm {n out out' s s'} : out.Perm out' → rel n out s s' → rel n out' s s'
  mirror {n out s s'} : T.mirror → rel n out s s' → s' = s
  write {n out s s' w w'} : Paired holds holds' (rel n) out s s' →
    WrittenIn out s.2.memory w.memory → WrittenIn out s'.2.memory w'.memory →
    (T.mirror → w' = w) → rel n out (s.1, w) (s'.1, w')
  low {n out s s'} : Paired holds holds' (rel n) out s s' →
    T.may ∨ ∀ block ∈ out, block.addr + block.len ≤ addressLimit
  alloc {n out s s' size align} : Paired holds holds' (rel (n + 1)) out s s' → T.fair size align →
    Act.Alike T.may (Answered T (rel n) (ValidRequest size align) out out) (A.alloc size align)
      (A.alloc size align) s s'
  free {n out s s' block} : Paired holds holds' (rel n) (block :: out) s s' →
    Act.Alike T.may (fun _ => rel n out) (A.free block) (A.free block) s s'
  free_null {n out s s' block} : Paired holds holds' (rel n) out s s' → block.isNull = true →
    Act.Alike T.may (fun _ => rel n out) (A.free block) (A.free block) s s'

/-- In related states whatever is asked is answered alike, and the whole interface is offered. -/
structure Twins (T : Terms) (A : Allocator γ) (holds holds' : List Slice → γ × Machine → Prop)
    (rel : Nat → List Slice → γ × Machine → γ × Machine → Prop) : Prop
    extends Kindred T A holds holds' rel where
  service : Service A holds
  service' : Service A holds'
  resize {n out s s' old size align} : Paired holds holds' (rel (n + 1)) (old :: out) s s' →
    old.isNull = false → size ≠ 0 → T.fair size align →
    Act.Alike T.may (Answered T (rel n) (ValidRequest size align) out (old :: out))
      (A.resize old size align) (A.resize old size align) s s'

namespace Act.Alike

variable {T : Terms} {rel : List Slice → γ × Machine → γ × Machine → Prop} {out kept : List Slice}
  {may : Prop} {post : Answer → γ × Machine → γ × Machine → Prop} {s s' : γ × Machine}
  {alloc : Nat → Nat → Act γ Answer} {free : Slice → Act γ Unit}
  {adjust : Slice → Nat → Nat → Act γ Answer} {serve : Nat → Nat → Act γ Answer} {old : Slice}
  {size align : Nat}

/-- A request is answered alike if it is when it is valid. -/
theorem allocBy (hkept : rel kept s s')
    (hserve : ∀ k, 0 < size → Alike T.may (Answered T rel (ValidRequest size (2 ^ k)) out kept)
      (serve size (2 ^ k)) (serve size (2 ^ k)) s s') :
    Alike T.may (Answered T rel (ValidRequest size align) out kept)
      (AllocChain.allocBy serve size align) (AllocChain.allocBy serve size align) s s' := by
  by_cases hvalid : ValidRequest size align
  · obtain ⟨hs, k, hk⟩ := hvalid
    rw [allocBy_valid hs ⟨k, hk⟩, hk]
    refine (hserve k hs).imp fun r _ _ _ _ hpost => ?_
    cases r with
    | ok block => exact hpost
    | error e => exact ⟨hpost.1, fun _ => hpost.2 (validRequest_two_pow hs k)⟩
  · simp only [AllocChain.allocBy]
    cases hc : checkRequest size align with
    | error e => exact .pure ⟨hkept, fun hvalid' => absurd hvalid' hvalid⟩
    | ok a =>
      obtain ⟨hs, hpow, _⟩ := checkRequest_eq_ok_iff.1 hc
      exact absurd ⟨Nat.pos_of_ne_zero hs, Word.isPowerOfTwo_iff.1 hpow⟩ hvalid

theorem resizeBy (hn : old.isNull = false) (hs : size ≠ 0) (hkept : rel kept s s')
    (hadjust : ∀ k, 0 < size → Alike T.may (Answered T rel (ValidRequest size (2 ^ k)) out kept)
      (adjust old size (2 ^ k)) (adjust old size (2 ^ k)) s s') :
    Alike T.may (Answered T rel (ValidRequest size align) out kept)
      (AllocChain.resizeBy alloc free adjust old size align)
      (AllocChain.resizeBy alloc free adjust old size align) s s' := by
  have heq : AllocChain.resizeBy alloc free adjust old size align =
      AllocChain.allocBy (adjust old) size align := by
    simp only [AllocChain.resizeBy, AllocChain.allocBy, hn, Bool.false_eq_true, if_false, if_neg hs]
  rw [heq]
  exact allocBy hkept hadjust

/-- A block is moved alike if the requests are answered alike and then the old block is freed so. -/
theorem relocate {mid : Answer → γ × Machine → γ × Machine → Prop}
    (halloc : Alike may mid (alloc size align) (alloc size align) s s')
    (hrefused : ∀ e t t', mid (.error e) t t' → post (.error e) t t')
    (hapart : ∀ fresh t t', alloc size align s = .ok (.ok fresh, t) → mid (.ok fresh) t t' →
      may ∨ old.CopiesApart fresh)
    (hfree : ∀ fresh t t', alloc size align s = .ok (.ok fresh, t) →
      alloc size align s' = .ok (.ok fresh, t') → mid (.ok fresh) t t' →
      Alike may (fun _ => post (.ok fresh)) (free old) (free old)
        (t.1, t.2.mapMemory (·.copyCommon old fresh))
        (t'.1, t'.2.mapMemory (·.copyCommon old fresh))) :
    Alike may post (AllocChain.relocate alloc free old size align)
      (AllocChain.relocate alloc free old size align) s s' := by
  simp only [AllocChain.relocate]
  refine bind halloc fun answer t t' ht ht' hmid => ?_
  cases answer with
  | error e => exact .pure (hrefused e t t' hmid)
  | ok fresh =>
    refine lift_bind ((hapart fresh t t' ht hmid).imp_right fun h => ⟨(), Slice.checkCopy_ok h⟩) ?_
    intro _ _
    refine changeMemory_bind (bind (hfree fresh t t' ht ht' hmid) ?_)
    intro _ _ _ _ _ hpost
    exact .pure hpost

end Act.Alike

namespace Paired

variable {holds holds' : List Slice → γ × Machine → Prop}
  {rel rel' : List Slice → γ × Machine → γ × Machine → Prop} {out : List Slice}
  {s s' : γ × Machine}

theorem mono (h : Paired holds holds' rel out s s') (himp : rel out s s' → rel' out s s') :
    Paired holds holds' rel' out s s' :=
  ⟨h.left, h.right, himp h.related⟩

end Paired

namespace Kindred

variable {T : Terms} {A : Allocator γ} {holds holds' : List Slice → γ × Machine → Prop}
  {rel : Nat → List Slice → γ × Machine → γ × Machine → Prop} {n : Nat}
  {out out' blocks : List Slice} {s s' : γ × Machine} {old block : Slice} {size align : Nat}

theorem paired_perm (h : Kindred T A holds holds' rel) (hperm : out.Perm out')
    (hp : Paired holds holds' (rel n) out s s') : Paired holds holds' (rel n) out' s s' :=
  ⟨h.left.supply.perm hperm hp.left, h.right.supply.perm hperm hp.right, h.perm hperm hp.related⟩

/-- Both memories may change inside the blocks. -/
theorem rewrite (h : Kindred T A holds holds' rel) (hp : Paired holds holds' (rel n) out s s')
    {w w' : Machine} (hw : WrittenIn out s.2.memory w.memory)
    (hw' : WrittenIn out s'.2.memory w'.memory) (hmirror : T.mirror → w' = w) :
    Paired holds holds' (rel n) out (s.1, w) (s'.1, w') :=
  ⟨h.left.supply.write hp.left hw, h.right.supply.write hp.right hw', h.write hp hw hw' hmirror⟩

theorem change (h : Kindred T A holds holds' rel) (hp : Paired holds holds' (rel n) out s s')
    {f : Memory → Memory} (hw : ∀ m, WrittenIn out m (f m)) :
    Paired holds holds' (rel n) out (s.1, s.2.mapMemory f) (s'.1, s'.2.mapMemory f) := by
  refine h.rewrite hp (hw _) (hw _) fun hmirror => ?_
  rw [h.mirror hmirror hp.related]

theorem report (h : Kindred T A holds holds' rel) (hp : Paired holds holds' (rel n) out s s')
    (es : List Event) :
    Paired holds holds' (rel n) out (s.1, s.2.report es) (s'.1, s'.2.report es) := by
  refine h.rewrite hp (.refl _ _) (.refl _ _) fun hmirror => ?_
  rw [h.mirror hmirror hp.related]

theorem alloc_paired (h : Kindred T A holds holds' rel)
    (hp : Paired holds holds' (rel (n + 1)) out s s') (hfair : T.fair size align) :
    Act.Alike T.may (Answered T (Paired holds holds' (rel n)) (ValidRequest size align) out out)
      (A.alloc size align) (A.alloc size align) s s' := by
  refine (h.alloc hp hfair).imp fun r t t' ht ht' hpost => ?_
  cases r with
  | ok block =>
    exact ⟨(h.left.supply.alloc hp.left ht).2, (h.right.supply.alloc hp.right ht').2, hpost⟩
  | error e =>
    exact ⟨⟨h.left.supply.alloc_refused hp.left ht, h.right.supply.alloc_refused hp.right ht',
      hpost.1⟩, hpost.2⟩

theorem free_paired (h : Kindred T A holds holds' rel)
    (hp : Paired holds holds' (rel n) (block :: out) s s') :
    Act.Alike T.may (fun _ => Paired holds holds' (rel n) out) (A.free block) (A.free block)
      s s' :=
  (h.free hp).imp fun _ _ _ ht ht' hpost =>
    ⟨h.left.supply.free hp.left ht, h.right.supply.free hp.right ht', hpost⟩

theorem freeAll (h : Kindred T A holds holds' rel)
    (hp : Paired holds holds' (rel n) (blocks ++ out) s s') :
    Act.Alike T.may (fun _ => Paired holds holds' (rel n) out) (A.freeAll blocks)
      (A.freeAll blocks) s s' := by
  induction blocks generalizing s s' with
  | nil => exact .pure hp
  | cons block blocks ih =>
    refine .bind (h.free_paired hp) ?_
    intro _ _ _ _ _ hrest
    exact ih hrest

theorem relocate (h : Kindred T A holds holds' rel)
    (hp : Paired holds holds' (rel (n + 1)) (old :: out) s s') (hvalid : ValidRequest size align) :
    Act.Alike T.may (Answered T (rel n) (ValidRequest size align) out (old :: out))
      (AllocChain.relocate A.alloc A.free old size align)
      (AllocChain.relocate A.alloc A.free old size align) s s' := by
  have halloc := h.alloc_paired hp (T.fair_of_valid hvalid)
  refine .relocate halloc (fun e t t' hrefused => ?_) (fun fresh t t' _ hnew => ?_)
    fun fresh t t' _ _ hnew => ?_
  · exact ⟨hrefused.1.related, hrefused.2⟩
  · have hdisjoint : fresh.Disjoint old :=
      (List.pairwise_cons.1 (h.left.supply.apart hnew.left)).1 old List.mem_cons_self
    exact .inr hdisjoint.symm.copiesApart
  · have hcopied := h.change hnew fun m => (writtenIn_copyCommon m old fresh).mem List.mem_cons_self
    exact h.free (h.paired_perm (.swap _ _ _) hcopied)

/-- More may be known of the states, as long as it is kept. -/
theorem narrow {known known' : List Slice → γ × Machine → Prop} (h : Kindred T A holds holds' rel)
    (hleft : Keeper A known) (hright : Keeper A known')
    (himp : ∀ {out s}, known out s → holds out s)
    (himp' : ∀ {out s}, known' out s → holds' out s) : Kindred T A known known' rel where
  left := hleft
  right := hright
  fewer := h.fewer
  perm := h.perm
  mirror := h.mirror
  write hp := h.write ⟨himp hp.left, himp' hp.right, hp.related⟩
  low hp := h.low ⟨himp hp.left, himp' hp.right, hp.related⟩
  alloc hp := h.alloc ⟨himp hp.left, himp' hp.right, hp.related⟩
  free hp := h.free ⟨himp hp.left, himp' hp.right, hp.related⟩
  free_null hp := h.free_null ⟨himp hp.left, himp' hp.right, hp.related⟩

theorem nonNull (h : Kindred T A holds holds' rel) :
    Kindred T A (NonNull holds) (NonNull holds') rel :=
  h.narrow h.left.nonNull h.right.nonNull And.left And.left

/-- An allocator that moves what it cannot adjust is its own twin if it adjusts alike. -/
theorem twins {adjust : Slice → Nat → Nat → Act γ Answer} (h : Kindred T A holds holds' rel)
    (hleft : Service A holds) (hright : Service A holds')
    (hresize : A.resize = resizeBy A.alloc A.free adjust)
    (hadjust : ∀ {n out s s' old size k}, Paired holds holds' (rel (n + 1)) (old :: out) s s' →
      old.isNull = false → 0 < size →
      Act.Alike T.may (Answered T (rel n) (ValidRequest size (2 ^ k)) out (old :: out))
        (adjust old size (2 ^ k)) (adjust old size (2 ^ k)) s s') :
    Twins T A holds holds' rel where
  toKindred := h
  service := hleft
  service' := hright
  resize {n out s s' old size align} hp hn hs _ := by
    rw [hresize]
    exact .resizeBy hn hs (h.fewer hp.related) fun k hs => hadjust hp hn hs

end Kindred

namespace Twins

variable {T : Terms} {A : Allocator γ} {holds holds' : List Slice → γ × Machine → Prop}
  {rel : Nat → List Slice → γ × Machine → γ × Machine → Prop} {n : Nat}
  {out ex : List Slice} {s s' : γ × Machine} {old : Slice} {size align : Nat}

/-- Who may be asked anything may be asked what is fair. -/
theorem close (h : Twins T.open A holds holds' rel) : Twins T A holds holds' rel where
  left := h.left
  right := h.right
  service := h.service
  service' := h.service'
  fewer := h.fewer
  perm := h.perm
  mirror := h.mirror
  write := h.write
  low := h.low
  alloc hp _ := h.alloc hp trivial
  resize hp hn hs _ := h.resize hp hn hs trivial
  free := h.free
  free_null := h.free_null

theorem resize_paired (h : Twins T A holds holds' rel)
    (hp : Paired holds holds' (rel (n + 1)) (old :: out) s s') (hn : old.isNull = false)
    (hs : size ≠ 0) (hfair : T.fair size align) :
    Act.Alike T.may
      (Answered T (Paired holds holds' (rel n)) (ValidRequest size align) out (old :: out))
      (A.resize old size align) (A.resize old size align) s s' := by
  refine (h.resize hp hn hs hfair).imp fun r t t' ht ht' hpost => ?_
  cases r with
  | ok block =>
    exact ⟨(h.left.supply.resize hp.left hn hs ht).2, (h.right.supply.resize hp.right hn hs ht').2,
      hpost⟩
  | error e =>
    exact ⟨⟨h.left.supply.resize_refused hp.left hn hs ht,
      h.right.supply.resize_refused hp.right hn hs ht', hpost.1⟩, hpost.2⟩

/-! ### Several clients -/

theorem framed (h : Twins T A holds holds' rel) (others : List Slice) (m₀ m₀' : Memory) :
    Twins T A (Framed holds others m₀) (Framed holds' others m₀')
      (fun n out => rel n (out ++ others)) where
  left := h.left.framed others m₀
  right := h.right.framed others m₀'
  service := h.service.framed others m₀
  service' := h.service'.framed others m₀'
  fewer := h.fewer
  perm hperm := h.perm (hperm.append_right others)
  mirror := h.mirror
  write hp hw hw' hmirror := by
    have hwide : ∀ {m m' : Memory} {out}, WrittenIn out m m' → WrittenIn (out ++ others) m m' :=
      fun hw => hw.inside fun block hb => ⟨block, List.mem_append_left _ hb, .refl _⟩
    exact h.write ⟨hp.left.1, hp.right.1, hp.related⟩ (hwide hw) (hwide hw') hmirror
  low hp := by
    refine (h.low ⟨hp.left.1, hp.right.1, hp.related⟩).imp_right fun hlow block hb => ?_
    exact hlow block (List.mem_append_left _ hb)
  alloc hp hfair := by
    refine (h.alloc ⟨hp.left.1, hp.right.1, hp.related⟩ hfair).imp fun r _ _ _ _ hpost => ?_
    cases r <;> exact hpost
  resize {n out s s' old size align} hp hn hs hfair := by
    have hwide : Paired holds holds' (rel (n + 1)) (old :: (out ++ others)) s s' :=
      ⟨hp.left.1, hp.right.1, hp.related⟩
    refine (h.resize hwide hn hs hfair).imp fun r _ _ _ _ hpost => ?_
    cases r <;> exact hpost
  free {n out s s' block} hp := by
    have hwide : Paired holds holds' (rel n) (block :: (out ++ others)) s s' :=
      ⟨hp.left.1, hp.right.1, hp.related⟩
    exact h.free hwide
  free_null hp hn := h.free_null ⟨hp.left.1, hp.right.1, hp.related⟩ hn

theorem narrow {known known' : List Slice → γ × Machine → Prop} (h : Twins T A holds holds' rel)
    (hleft : Service A known) (hright : Service A known')
    (himp : ∀ {out s}, known out s → holds out s)
    (himp' : ∀ {out s}, known' out s → holds' out s) : Twins T A known known' rel where
  toKindred := h.toKindred.narrow hleft.keeper hright.keeper himp himp'
  service := hleft
  service' := hright
  resize hp := h.resize ⟨himp hp.left, himp' hp.right, hp.related⟩

theorem nonNull (h : Twins T A holds holds' rel) :
    Twins T A (NonNull holds) (NonNull holds') rel :=
  h.narrow h.service.nonNull h.service'.nonNull And.left And.left

/-- What holds during every run may be known of the states. -/
theorem during {adjust : Slice → Nat → Nat → Act γ Answer} {inv : γ × Machine → Prop}
    (h : Twins T A holds holds' rel) (hinv : Steady A adjust inv) :
    Twins T A (fun out s => holds out s ∧ inv s) (fun out s => holds' out s ∧ inv s) rel :=
  h.narrow (h.service.during hinv) (h.service'.during hinv) And.left And.left

/-! ### Layers -/

/-- Two layers with the same bookkeeping, which hold the blocks of `stock` below. -/
structure Atop {L : Type} (stock : L → List Slice)
    (rel : Nat → List Slice → γ × Machine → γ × Machine → Prop) (n : Nat)
    (s s' : (L × γ) × Machine) : Prop where
  own : s'.1.1 = s.1.1
  below : rel n (stock s.1.1) (s.1.2, s.2) (s'.1.2, s'.2)

namespace Atop

variable {L : Type} {stock : L → List Slice} {u u' : (L × γ) × Machine}

theorem fewer (h : Kindred T A holds holds' rel) (ha : Atop stock rel (n + 1) u u') :
    Atop stock rel n u u' :=
  ⟨ha.own, h.fewer ha.below⟩

theorem mirror (h : Kindred T A holds holds' rel) (hm : T.mirror) (ha : Atop stock rel n u u') :
    u' = u := by
  obtain ⟨⟨l, b⟩, m⟩ := u
  obtain ⟨⟨l', b'⟩, m'⟩ := u'
  obtain rfl : l' = l := ha.own
  cases h.mirror hm ha.below
  rfl

theorem paired (ha : Atop stock rel n u u') (hleft : holds (stock u.1.1) (u.1.2, u.2))
    (hright : holds' (stock u'.1.1) (u'.1.2, u'.2)) :
    Paired holds holds' (rel n) (stock u.1.1) (u.1.2, u.2) (u'.1.2, u'.2) := by
  rw [ha.own] at hright
  exact ⟨hleft, hright, ha.below⟩

end Atop

/-! ### Deeds -/

/-- A request, with the blocks of others beside those of the client. -/
theorem alloc_beside (h : Twins T A holds holds' rel) (hfair : T.fair size align)
    (hp : Paired holds holds' (rel (n + 1)) (out ++ ex) s s') :
    Act.Alike T.may (fun r => match r with
      | .ok block => Paired holds holds' (rel n) (block :: out ++ ex)
      | .error _ => rel n (out ++ ex)) (A.alloc size align) (A.alloc size align) s s' := by
  refine (h.alloc_paired hp hfair).imp fun r t t' _ _ hpost => ?_
  cases r with
  | ok block => exact hpost
  | error e => exact hpost.1.related

theorem perform_free (h : Twins T A holds holds' rel)
    (hp : Paired holds holds' (rel n) (out ++ ex) s s') (hd : (Deed.free old).Proper out) :
    Act.Alike T.may (fun r => rel n ((Deed.free old).leaves out r ++ ex)) (A.perform (.free old))
      (A.perform (.free old)) s s' := by
  simp only [Allocator.perform]
  cases hn : old.isNull with
  | true =>
    refine .bind (h.free_null hp hn) fun _ t t' _ _ hpost => .pure ?_
    simp only [Deed.leaves, hn, if_true]
    exact hpost
  | false =>
    have hmem : old ∈ out := hd.resolve_left (by simp [hn])
    have hheld := (List.perm_cons_erase hmem).append_right ex
    refine .bind (h.free (h.paired_perm hheld hp)) fun _ t t' _ _ hpost => .pure ?_
    simp only [Deed.leaves, hn, Bool.false_eq_true, if_false]
    exact hpost

/-- A resize, which may be one of null or to no bytes. -/
theorem perform_resize (h : Twins T A holds holds' rel)
    (hfair : (Deed.resize old size align).Asks T.fair)
    (hp : Paired holds holds' (rel (n + 1)) (out ++ ex) s s')
    (hd : (Deed.resize old size align).Proper out) :
    Act.Alike T.may (fun r => rel n ((Deed.resize old size align).leaves out r ++ ex))
      (A.perform (.resize old size align)) (A.perform (.resize old size align)) s s' := by
  simp only [Allocator.perform]
  cases hn : old.isNull with
  | true =>
    have hasked : T.fair size align := hfair.resolve_left (by simp [hn])
    rw [h.service.resize_null hn]
    refine (h.alloc_beside hasked hp).imp fun r t t' _ _ hpost => ?_
    cases r with
    | ok block =>
      simp only [Deed.leaves, hn, if_true]
      exact hpost.related
    | error e => exact hpost
  | false =>
    have hmem : old ∈ out := hd.resolve_left (by simp [hn])
    have hheld := (List.perm_cons_erase hmem).append_right ex
    by_cases hs : size = 0
    · subst hs
      rw [h.service.resize_zero hn]
      refine .bind (h.free (h.paired_perm hheld (hp.mono h.fewer))) fun _ t t' _ _ hpost => .pure ?_
      simp only [Deed.leaves, hn, Bool.false_eq_true, if_false, if_true]
      exact hpost
    · have hasked : T.fair size align := hfair.resolve_left fun hzero => hs hzero.2
      refine (h.resize (h.paired_perm hheld hp) hn hs hasked).imp fun r t t' _ _ hpost => ?_
      cases r with
      | ok block =>
        simp only [Deed.leaves, hn, Bool.false_eq_true, if_false, if_neg hs]
        exact hpost
      | error e => exact h.perm hheld.symm hpost.1

theorem perform_write (h : Twins T A holds holds' rel) {addr : Nat} {byte byte' : UInt8}
    (hmirror : T.mirror → byte' = byte) (hp : Paired holds holds' (rel n) (out ++ ex) s s')
    (hd : (Deed.write addr byte).Proper out) :
    Act.Alike T.may (fun r => rel n ((Deed.write addr byte).leaves out r ++ ex))
      (A.perform (.write addr byte)) (A.perform (.write addr byte')) s s' := by
  have hwritten : ∀ (m : Memory) (byte : UInt8),
      WrittenIn (out ++ ex) m (m.write addr 1 fun _ => byte) := fun m byte =>
    writtenIn_byte (hd.mono (List.subset_append_left out ex)) m fun _ => byte
  refine .changeMemory_bind
    (.pure (h.rewrite hp (hwritten _ _) (hwritten _ _) fun hm => ?_).related)
  rw [h.mirror hm hp.related, hmirror hm]

/-- What a client does with its own blocks is answered alike. -/
theorem perform (h : Twins T A holds holds' rel) {d d' : Deed} (hlike : d.Like d')
    (hmirror : T.mirror → d' = d) (hfair : d.Asks T.fair)
    (hp : Paired holds holds' (rel (n + d.calls)) (out ++ ex) s s') (hd : d.Proper out) :
    Act.Alike T.may (fun r => rel n (d.leaves out r ++ ex)) (A.perform d) (A.perform d') s s' := by
  cases hlike with
  | write addr byte byte' => exact h.perform_write (fun hm => (Deed.write.inj (hmirror hm)).2) hp hd
  | refl =>
    cases d with
    | alloc size align =>
      refine (h.alloc_beside hfair hp).imp fun r t t' _ _ hpost => ?_
      cases r with
      | ok block => exact hpost.related
      | error e => exact hpost
    | allocZeroed size align =>
      refine .bind (h.alloc_beside hfair hp) fun r t t' _ _ hpost => ?_
      cases r with
      | error e => exact .pure hpost
      | ok block =>
        have hzeroed : ∀ m : Memory,
            WrittenIn (block :: out ++ ex) m (m.write block.addr block.len fun _ => 0) :=
          fun m => (writtenIn_write m block.addr block.len _).mem List.mem_cons_self
        exact .changeMemory_bind (.pure (h.change hpost hzeroed).related)
    | resize old size align => exact h.perform_resize hfair hp hd
    | free old => exact h.perform_free (hp.mono h.fewer) hd
    | write addr byte => exact h.perform_write (fun _ => rfl) hp hd

end Twins
end AllocChain
