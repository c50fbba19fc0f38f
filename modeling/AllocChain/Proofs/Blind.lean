import AllocChain.Proofs.Chain.Tier
import AllocChain.Proofs.ScriptedTwins
import AllocChain.Proofs.Watch

/-!
What is done without reading the memory. An action is `Blind` if its value, its reports and the
bookkeeping that it leaves depend on the bookkeeping alone; whatever is built from such actions is
blind, too. Of all allocators only those that keep headers between their blocks look into the
memory: the scripted heap is blind, however it misbehaves, and so are general-purpose and counting
allocators over a blind one, and whatever is watched. Nothing has to be known of the states for
that.
-/

namespace AllocChain

variable {β L α δ : Type}

/-- The terms on which the bytes may differ, and nothing else. -/
def Terms.blind : Terms where
  may := True
  mirror := False
  fair _ _ := True
  refusal _ := True
  fair_of_valid _ := trivial
  exhausted _ _ := trivial

/-- Over any two memories the action does the same to the bookkeeping. -/
def Act.Blind (x : Act β α) : Prop :=
  ∀ s s', s'.1 = s.1 → Act.Alike True (fun _ t t' => t'.1 = t.1) x x s s'

namespace Act.Blind

theorem pure (a : α) : Blind (Pure.pure a : Act β α) :=
  fun _ _ h => .pure h

theorem bind {x : Act β δ} {f : δ → Act β α} (hx : x.Blind) (hf : ∀ a, (f a).Blind) :
    (x >>= f).Blind :=
  fun s s' h => .bind (hx s s' h) fun a t t' _ _ ht => hf a t t' ht

theorem lift (y : Except Fault α) : Blind (liftM y : Act β α) := by
  intro s s' h
  rw [← bind_pure (liftM y : Act β α)]
  exact .lift_bind (.inl trivial) fun _ _ => .pure h

theorem emit (e : Event) : Blind (Act.emit e : Act β Unit) :=
  fun _ _ h => .emit h

theorem changeMemory (f : Memory → Memory) : Blind (Act.changeMemory f : Act β Unit) :=
  fun _ _ h => .changeMemory h

theorem own : Blind (Act.own : Act (L × β) L) :=
  fun _ _ h => .own_bind (congrArg Prod.fst h) (.pure h)

theorem setOwn (l : L) : Blind (Act.setOwn l : Act (L × β) Unit) :=
  fun _ _ h => .setOwn (congrArg (fun b => (l, b.2)) h)

theorem below {x : Act β α} (hx : x.Blind) : (Act.below x : Act (L × β) α).Blind :=
  fun s s' h => .below ((hx (s.1.2, s.2) (s'.1.2, s'.2) (congrArg Prod.snd h)).imp
    fun _ _ _ _ _ ht => congrArg₂ Prod.mk (congrArg Prod.fst h) ht)

theorem allocBy {serve : Nat → Nat → Act β Answer} {size align : Nat}
    (h : ∀ align, (serve size align).Blind) : (AllocChain.allocBy serve size align).Blind := by
  simp only [AllocChain.allocBy]
  split
  · exact .pure _
  · exact h _

theorem relocate {alloc : Nat → Nat → Act β Answer} {free : Slice → Act β Unit} {old : Slice}
    {size align : Nat} (halloc : (alloc size align).Blind) (hfree : (free old).Blind) :
    (AllocChain.relocate alloc free old size align).Blind := by
  refine .bind halloc fun answer => ?_
  cases answer with
  | error e => exact .pure _
  | ok fresh =>
    exact .bind (.lift _) fun _ => .bind (.changeMemory _) fun _ => .bind hfree fun _ => .pure _

theorem resizeBy {alloc : Nat → Nat → Act β Answer} {free : Slice → Act β Unit}
    {adjust : Slice → Nat → Nat → Act β Answer} {old : Slice} {size align : Nat}
    (halloc : (alloc size align).Blind) (hfree : (free old).Blind)
    (hadjust : ∀ align, (adjust old size align).Blind) :
    (AllocChain.resizeBy alloc free adjust old size align).Blind := by
  simp only [AllocChain.resizeBy]
  split
  · exact halloc
  split
  · exact .bind hfree fun _ => .pure _
  split
  · exact .pure _
  · exact hadjust _

end Act.Blind

/-- None of the three operations reads the memory. -/
structure Allocator.Blind (B : Allocator β) : Prop where
  alloc (size align : Nat) : (B.alloc size align).Blind
  resize (block : Slice) (size align : Nat) : (B.resize block size align).Blind
  free (block : Slice) : (B.free block).Blind

namespace Allocator.Blind

variable {B : Allocator β}

theorem freeAll (hB : B.Blind) (blocks : List Slice) : (B.freeAll blocks).Blind := by
  induction blocks with
  | nil => exact .pure _
  | cons block blocks ih => exact .bind (hB.free block) fun _ => ih

/-- What a client does is the same to the bookkeeping, whichever bytes it writes. -/
theorem perform (hB : B.Blind) {d d' : Deed} (hlike : d.Like d') {s s' : β × Machine}
    (h : s'.1 = s.1) :
    Act.Alike True (fun _ t t' => t'.1 = t.1) (B.perform d) (B.perform d') s s' := by
  have hwrite : ∀ addr byte byte', Act.Alike True (fun _ t t' => t'.1 = t.1)
      (B.perform (.write addr byte)) (B.perform (.write addr byte')) s s' :=
    fun _ _ _ => .changeMemory_bind (.pure h)
  cases hlike with
  | write addr byte byte' => exact hwrite addr byte byte'
  | refl =>
    cases d with
    | alloc size align => exact hB.alloc size align s s' h
    | allocZeroed size align =>
      refine .bind (hB.alloc size align s s' h) fun answer t t' _ _ ht => ?_
      cases answer with
      | error e => exact .pure ht
      | ok block => exact .changeMemory_bind (.pure ht)
    | resize old size align => exact hB.resize old size align s s' h
    | free old => exact .bind (hB.free old s s' h) fun _ _ _ _ _ ht => .pure ht
    | write addr byte => exact hwrite addr byte byte

end Allocator.Blind

/-! ### Allocators that do not read the memory -/

theorem ScriptedHeap.blind : ScriptedHeap.allocator.Blind := by
  have hstart : ∀ {s s' : ScriptedHeap × Machine}, s'.1 = s.1 → Twin .blind s s' :=
    fun h => ⟨h, .inl trivial, False.elim⟩
  have halloc : ∀ size align, (alloc size align).Blind := by
    intro size align s s' h
    have halike : Act.Alike _ (Answered .blind (fun _ => Twin .blind) _ [] []) (alloc size align)
        (alloc size align) s s' := alloc_alike (hstart h)
    refine halike.imp fun r t t' _ _ hpost => ?_
    cases r with
    | ok block => exact hpost.heap
    | error e => exact hpost.1.heap
  have hfree : ∀ block, (free block).Blind := fun block s s' h =>
    (free_alike (hstart h)).imp fun _ _ _ _ _ hpost => hpost.heap
  refine ⟨halloc, fun old size align => ?_, hfree⟩
  change (resize old size align).Blind
  cases hn : old.isNull with
  | true =>
    simp only [resize, hn, if_true]
    exact halloc size align
  | false =>
    by_cases hs : size = 0
    · simp only [resize, hn, Bool.false_eq_true, if_false, if_pos hs]
      exact .bind (hfree old) fun _ => .pure _
    · intro s s' h
      have halike : Act.Alike _ (Answered .blind (fun _ => Twin .blind) _ [] [old])
          (resize old size align) (resize old size align) s s' := resize_alike (hstart h) hn hs
      refine halike.imp fun r t t' _ _ hpost => ?_
      cases r with
      | ok block => exact hpost.heap
      | error e => exact hpost.1.heap

namespace GeneralPurpose

variable {B : Allocator β}

theorem bucketWithRoom_blind (hB : B.Blind) (c : Nat) : (bucketWithRoom B c).Blind := by
  refine .bind .own fun g => .bind (.lift _) fun buckets => ?_
  split
  · exact .pure _
  refine .bind (.lift _) fun _ => .bind (.below (hB.alloc _ _)) fun answer => ?_
  cases answer with
  | error e => exact .pure _
  | ok storage =>
    exact .bind (.emit _) fun _ => .bind (.lift _) fun _ => .bind (.setOwn _) fun _ => .pure _

theorem serve_blind (hB : B.Blind) (size align : Nat) : (serve B size align).Blind := by
  refine .bind .own fun g => .bind (.lift _) fun found => ?_
  split
  · refine .bind (bucketWithRoom_blind hB _) fun found => ?_
    cases found with
    | error e => exact .pure _
    | ok index =>
      refine .bind .own fun g => .bind (.lift _) fun buckets => .bind (.lift _) fun bucket =>
        .bind (.lift _) fun taken => ?_
      rcases taken with _ | ⟨addr, bucket'⟩
      · exact .pure _
      · exact .bind (.setOwn _) fun _ => .bind (.emit _) fun _ => .pure _
  · refine .bind (.below (hB.alloc size align)) fun answer => ?_
    cases answer with
    | error e => exact .pure _
    | ok block =>
      exact .bind .own fun _ => .bind (.setOwn _) fun _ => .bind (.emit _) fun _ => .pure _

theorem releaseSlot_blind (hB : B.Blind) (c i k : Nat) : (releaseSlot B c i k).Blind := by
  refine .bind .own fun g => .bind (.lift _) fun buckets => .bind (.lift _) fun bucket =>
    .bind (.lift _) fun bucket' => .bind (.emit _) fun _ => ?_
  split
  · dsimp only
    split
    · exact .bind (.lift _) fun _ => .bind (.setOwn _) fun _ => .bind (.emit _) fun _ =>
        .below (hB.free _)
    · exact .bind (.pure _) fun _ => .bind (.setOwn _) fun _ => .bind (.emit _) fun _ =>
        .below (hB.free _)
  · exact .setOwn _

theorem free_blind (hB : B.Blind) (mem : Slice) : (GeneralPurpose.free B mem).Blind := by
  simp only [GeneralPurpose.free]
  split
  · exact .pure _
  refine .bind .own fun g => .bind (.lift _) fun found => ?_
  rcases found with _ | ⟨c, i, k⟩ | i
  · exact .emit _
  · exact releaseSlot_blind hB c i k
  · exact .bind .own fun _ => .bind (.lift _) fun _ => .bind (.setOwn _) fun _ =>
      .bind (.emit _) fun _ => .below (hB.free _)

theorem blind (hB : B.Blind) : (allocator B).Blind := by
  have halloc : ∀ size align, (GeneralPurpose.alloc B size align).Blind :=
    fun size align => .allocBy fun align => serve_blind hB size align
  refine ⟨halloc, fun old size align => .resizeBy (halloc size align) (free_blind hB old)
    fun align => ?_, free_blind hB⟩
  refine .bind .own fun g => .bind (.lift _) fun found => ?_
  rcases found with _ | ⟨c, i, k⟩ | i
  · exact .pure _
  · refine .bind (.lift _) fun found => ?_
    split
    · exact .bind (.emit _) fun _ => .pure _
    · exact .relocate (halloc size align) (free_blind hB old)
  · refine .bind .own fun _ => .bind (.lift _) fun large =>
      .bind (.below (hB.resize large size align)) fun answer => ?_
    cases answer with
    | error e => exact .pure _
    | ok resized => exact .bind (.setOwn _) fun _ => .bind (.emit _) fun _ => .pure _

theorem destroy_blind (hB : B.Blind) : (destroy B).Blind := by
  refine .bind .own fun g => .bind (.setOwn _) fun _ => .bind (.below (hB.freeAll _)) fun _ =>
    .bind (.below (hB.freeAll _)) fun _ => ?_
  split
  · exact .emit _
  · exact .pure _

end GeneralPurpose

namespace Counters

variable {B : Allocator β}

theorem blind (hB : B.Blind) : (allocator B).Blind where
  alloc size align := by
    refine .bind (.below (hB.alloc size align)) fun answer => ?_
    cases answer with
    | error e => exact .pure _
    | ok block =>
      exact .bind .own fun _ => .bind (.lift _) fun _ => .bind (.setOwn _) fun _ => .pure _
  resize block size align := by
    refine .bind (.below (hB.resize block size align)) fun answer => ?_
    cases answer with
    | error e => exact .pure _
    | ok resized =>
      refine .bind .own fun c => ?_
      dsimp only
      split
      · exact .bind (.lift _) fun _ => .bind (.setOwn _) fun _ => .pure _
      split
      · exact .bind (.lift _) fun _ => .bind (.setOwn _) fun _ => .pure _
      · exact .bind (.lift _) fun _ => .bind (.setOwn _) fun _ => .pure _
  free block := by
    change (free B block).Blind
    simp only [free]
    split
    · exact .pure _
    · exact .bind (.below (hB.free block)) fun _ => .bind .own fun _ => .bind (.lift _) fun _ =>
        .setOwn _

end Counters

theorem Allocator.Blind.watched {B : Allocator β} (hB : B.Blind) : B.watched.Blind := by
  have hnoting : ∀ {δ : Type} (call : δ → Call) {x : Act β δ}, x.Blind →
      (Act.noting call x).Blind := fun call _ hx =>
    .bind (.below hx) fun _ => .bind .own fun _ => .bind (.setOwn _) fun _ => .pure _
  refine ⟨fun size align => hnoting _ (hB.alloc size align), fun block size align => ?_,
    fun block => ?_⟩
  · simp only [Allocator.watched]
    split
    · exact hnoting _ (hB.resize block size align)
    split
    · exact hnoting _ (hB.resize block size align)
    · exact hnoting _ (hB.resize block size align)
  · simp only [Allocator.watched]
    split
    · exact .below (hB.free block)
    · exact hnoting _ (hB.free block)

end AllocChain
