import AllocChain.Proofs.Trace
import AllocChain.Proofs.Twins

/-!
An allocator with a watch on it. Like `Allocator.traced`, `Allocator.watched` writes every call down
with its answer; but it writes down what a call amounts to, so a resize of null is a request, one to
no bytes is a free, and a free of null is nothing. Therefore a watch can be put on anything that
offers the whole interface, and what is put up on it cannot tell (`Service.watched`). Two runs that
are alike make the same calls, and ask only for what is fair (`Twins.watched`).
-/

namespace AllocChain

open Memory

variable {β : Type}

/-- The layout that the call asks for is `fair`. -/
def Call.Asks (fair : Nat → Nat → Prop) : Call → Prop
  | .alloc size align _ | .resize _ size align _ => fair size align
  | .free _ => True

/-- The allocator, writing down what every call amounts to. -/
def Allocator.watched (B : Allocator β) : Allocator (List Call × β) where
  alloc size align := Act.noting (fun r => .alloc size align r.toOption) (B.alloc size align)
  resize block size align :=
    if block.isNull then
      Act.noting (fun r => .alloc size align r.toOption) (B.resize block size align)
    else if size = 0 then Act.noting (fun _ => .free block) (B.resize block size align)
    else Act.noting (fun r => .resize block size align r.toOption) (B.resize block size align)
  free block :=
    if block.isNull then Act.below (B.free block)
    else Act.noting (fun _ => .free block) (B.free block)

section Calls

variable {B : Allocator β} {block : Slice} {size align : Nat}

theorem watched_free_null (hn : block.isNull = true) :
    B.watched.free block = Act.below (B.free block) := by
  simp only [Allocator.watched, hn, if_true]

theorem watched_free (hn : block.isNull = false) : B.watched.free block = B.traced.free block := by
  simp only [Allocator.watched, Allocator.traced, hn, Bool.false_eq_true, if_false]

theorem watched_resize (hn : block.isNull = false) (hs : size ≠ 0) :
    B.watched.resize block size align = B.traced.resize block size align := by
  simp only [Allocator.watched, Allocator.traced, hn, Bool.false_eq_true, if_false, if_neg hs]

theorem watched_resize_null (hn : block.isNull = true)
    (hB : B.resize block size align = B.alloc size align) :
    B.watched.resize block size align = B.watched.alloc size align := by
  simp only [Allocator.watched, hn, if_true, hB]

theorem watched_resize_zero (hn : block.isNull = false)
    (hB : B.resize block 0 align = do
      B.free block
      return .ok .null) :
    B.watched.resize block 0 align = do
      B.watched.free block
      return .ok .null := by
  funext ⟨⟨calls, b⟩, m⟩
  simp only [Allocator.watched, hn, Bool.false_eq_true, if_false, if_true, hB, Act.noting,
    Act.bind_apply, Act.below_apply, Act.pure_apply]
  cases B.free block (b, m) <;> rfl

end Calls

/-- A watch changes nothing about the interface. -/
theorem Service.watched {B : Allocator β} {holds : List Slice → β × Machine → Prop}
    (hB : Service B holds) : Service B.watched (Traced (NonNull holds)) := by
  have hS := hB.nonNull.supply.traced
  have hC := hB.nonNull.custody.traced
  have hnull : ∀ {block out s}, Traced (NonNull holds) (block :: out) s → block.isNull = false :=
    fun hh => Slice.isNull_eq_false.2 (hh.1.2 _ List.mem_cons_self)
  constructor
  case toContract =>
    constructor
    case supply =>
      constructor
      case toLedger =>
        exact
          { perm := hS.perm
            report := hS.report
            alloc := hS.alloc
            alloc_refused := hS.alloc_refused
            resize := fun hh hn hs hr => hS.resize hh hn hs (watched_resize hn hs ▸ hr)
            resize_refused := fun hh hn hs hr =>
              hS.resize_refused hh hn hs (watched_resize hn hs ▸ hr)
            free := fun hh hf => hS.free hh (watched_free (hnull hh) ▸ hf) }
      case write => exact hS.write
      case apart => exact hS.apart
      case bounded => exact hS.bounded
    case custody =>
      exact
        { alloc := hC.alloc
          resize := fun hh hn hs hr => hC.resize hh hn hs (watched_resize hn hs ▸ hr)
          resize_refused := fun hh hn hs hr =>
            hC.resize_refused hh hn hs (watched_resize hn hs ▸ hr)
          free := fun hh hf => hC.free hh (watched_free (hnull hh) ▸ hf) }
  case resize_null => exact fun hn => watched_resize_null hn (hB.resize_null hn)
  case resize_zero => exact fun hn => watched_resize_zero hn (hB.resize_zero hn)
  case free_null =>
    intro out s block t hh hn hf
    rw [watched_free_null hn] at hf
    obtain ⟨u, hcall, rfl⟩ := Act.below_ok.1 hf
    obtain ⟨hkept, hsame⟩ := hB.nonNull.free_null hh.1 hn hcall
    exact ⟨⟨hkept, hh.2⟩, hsame⟩

/-- Both watches have seen the same calls, which asked for what is fair. -/
structure WatchedTwin (fair : Nat → Nat → Prop)
    (rel : Nat → List Slice → β × Machine → β × Machine → Prop) (n : Nat) (out : List Slice)
    (s s' : (List Call × β) × Machine) : Prop where
  atop : Twins.Atop (fun _ => out) rel n s s'
  asked : ∀ call ∈ s.1.1, call.Asks fair

section Noting

variable {α : Type} {may : Prop} {call : α → Call} {x : Act β α} {s s' : (List Call × β) × Machine}
  {post : α → (List Call × β) × Machine → (List Call × β) × Machine → Prop}

theorem Act.Alike.noting (hown : s'.1.1 = s.1.1)
    (h : Act.Alike may (fun a u u' => post a ((s.1.1 ++ [call a], u.1), u.2)
      ((s.1.1 ++ [call a], u'.1), u'.2)) x x (s.1.2, s.2) (s'.1.2, s'.2)) :
    Act.Alike may post (Act.noting call x) (Act.noting call x) s s' := by
  simp only [Act.noting]
  refine .below_bind h fun a u u' _ _ hpost => ?_
  exact .own_bind hown (.setOwn_bind (.pure hpost))

end Noting

namespace WatchedTwin

variable {T : Terms} {B : Allocator β} {holds holds' : List Slice → β × Machine → Prop}
  {rel : Nat → List Slice → β × Machine → β × Machine → Prop} {n n' : Nat}
  {out kept : List Slice} {s s' : (List Call × β) × Machine} {call : Call} {u u' : β × Machine}

theorem noted (h : WatchedTwin T.fair rel n' kept s s') (hcall : call.Asks T.fair)
    (hu : rel n out u u') :
    WatchedTwin T.fair rel n out ((s.1.1 ++ [call], u.1), u.2) ((s.1.1 ++ [call], u'.1), u'.2) := by
  refine ⟨⟨rfl, hu⟩, fun call' hmem => ?_⟩
  rcases List.mem_append.1 hmem with hold | hnew
  · exact h.asked call' hold
  · rw [List.mem_singleton.1 hnew]
    exact hcall

theorem paired (hp : Paired (Traced holds) (Traced holds') (WatchedTwin T.fair rel n) out s s') :
    Paired holds holds' (rel n) out (s.1.2, s.2) (s'.1.2, s'.2) :=
  ⟨hp.left.1, hp.right.1, hp.related.atop.below⟩

/-- A request is seen with the same answer. -/
theorem alloc_alike (hB : Twins T B holds holds' rel) {size align : Nat}
    (hp : Paired (Traced (NonNull holds)) (Traced (NonNull holds'))
      (WatchedTwin T.fair rel (n + 1)) out s s') (hfair : T.fair size align) :
    Act.Alike T.may (Answered T (WatchedTwin T.fair rel n) (ValidRequest size align) out out)
      (B.watched.alloc size align) (B.watched.alloc size align) s s' := by
  refine .noting hp.related.atop.own ((hB.nonNull.alloc (paired hp) hfair).imp ?_)
  intro r u u' _ _ hpost
  cases r with
  | ok block => exact hp.related.noted hfair hpost
  | error e => exact ⟨hp.related.noted hfair hpost.1, hpost.2⟩

/-- A block that is given back is seen, if it is not null. -/
theorem free_alike (hB : Twins T B holds holds' rel) {block : Slice}
    (hp : Paired (Traced (NonNull holds)) (Traced (NonNull holds'))
      (WatchedTwin T.fair rel n) (block :: out) s s') :
    Act.Alike T.may (fun _ => WatchedTwin T.fair rel n out) (B.watched.free block)
      (B.watched.free block) s s' := by
  have hn : block.isNull = false := Slice.isNull_eq_false.2 (hp.left.1.2 block List.mem_cons_self)
  rw [watched_free hn]
  refine .noting hp.related.atop.own ((hB.nonNull.free (paired hp)).imp ?_)
  intro _ u u' _ _ hpost
  exact hp.related.noted trivial hpost

theorem free_null_alike (hB : Twins T B holds holds' rel) {block : Slice}
    (hp : Paired (Traced (NonNull holds)) (Traced (NonNull holds'))
      (WatchedTwin T.fair rel n) out s s') (hn : block.isNull = true) :
    Act.Alike T.may (fun _ => WatchedTwin T.fair rel n out) (B.watched.free block)
      (B.watched.free block) s s' := by
  rw [watched_free_null hn]
  refine .below ((hB.nonNull.free_null (paired hp) hn).imp ?_)
  intro _ u u' _ _ hpost
  exact ⟨⟨hp.related.atop.own, hpost⟩, hp.related.asked⟩

theorem resize_alike (hB : Twins T B holds holds' rel) {old : Slice} {size align : Nat}
    (hp : Paired (Traced (NonNull holds)) (Traced (NonNull holds'))
      (WatchedTwin T.fair rel (n + 1)) (old :: out) s s') (hn : old.isNull = false) (hs : size ≠ 0)
    (hfair : T.fair size align) :
    Act.Alike T.may
      (Answered T (WatchedTwin T.fair rel n) (ValidRequest size align) out (old :: out))
      (B.watched.resize old size align) (B.watched.resize old size align) s s' := by
  rw [watched_resize hn hs]
  refine .noting hp.related.atop.own ((hB.nonNull.resize (paired hp) hn hs hfair).imp ?_)
  intro r u u' _ _ hpost
  cases r with
  | ok block => exact hp.related.noted hfair hpost
  | error e => exact ⟨hp.related.noted hfair hpost.1, hpost.2⟩

end WatchedTwin

/-- A watch on an allocator that is its own twin sees the same in both runs. -/
theorem Twins.watched {T : Terms} {B : Allocator β} {holds holds' : List Slice → β × Machine → Prop}
    {rel : Nat → List Slice → β × Machine → β × Machine → Prop} (hB : Twins T B holds holds' rel) :
    Twins T B.watched (Traced (NonNull holds)) (Traced (NonNull holds'))
      (WatchedTwin T.fair rel) where
  left := hB.service.watched.keeper
  right := hB.service'.watched.keeper
  service := hB.service.watched
  service' := hB.service'.watched
  fewer h := ⟨h.atop.fewer hB.toKindred, h.asked⟩
  perm hp h := ⟨⟨h.atop.own, hB.perm hp h.atop.below⟩, h.asked⟩
  mirror hm h := h.atop.mirror hB.toKindred hm
  write hp hw hw' hmirror :=
    ⟨⟨hp.related.atop.own, hB.nonNull.write (WatchedTwin.paired hp) hw hw' hmirror⟩,
      hp.related.asked⟩
  low hp := hB.nonNull.low (WatchedTwin.paired hp)
  alloc hp hfair := WatchedTwin.alloc_alike hB hp hfair
  resize hp hn hs hfair := WatchedTwin.resize_alike hB hp hn hs hfair
  free hp := WatchedTwin.free_alike hB hp
  free_null hp hn := WatchedTwin.free_null_alike hB hp hn

end AllocChain
