import AllocChain.Proofs.Trace

/-!
How actions break off. `x.BreaksOnly allowed s` says that from state `s` the action `x` breaks off
in no way that `allowed` does not admit; there is one rule for each way to build an action. What
the parts of an allocator satisfy its deeds satisfy too (`Steady.perform_breaksOnly`), so an
allocator that only passes on how the one behind it breaks off has no fault of its own.
-/

namespace AllocChain

variable {β γ L α δ : Type}

/-- From state `s` the action breaks off only as `allowed` admits. -/
def Act.BreaksOnly (allowed : Breakdown → Prop) (x : Act β α) (s : β × Machine) : Prop :=
  ∀ brk, x s = .error brk → allowed brk

/-- The fault with which the action breaks off, if it does. -/
def Act.fault? (x : Act β α) (s : β × Machine) : Option Fault :=
  match x s with
  | .error brk => some brk.fault
  | .ok _ => none

theorem Act.fault?_eq_some_iff {x : Act β α} {s : β × Machine} {fault : Fault} :
    x.fault? s = some fault ↔ ∃ brk, x s = .error brk ∧ brk.fault = fault := by
  cases hx : x s <;> simp [fault?, hx]

/-- The allocator breaks off so in a call, with bookkeeping that `ok` admits. -/
def Allocator.Breaks (B : Allocator β) (ok : β → Prop) (brk : Breakdown) : Prop :=
  ∃ s : β × Machine, ok s.1 ∧
    ((∃ size align, B.alloc size align s = .error brk) ∨
      (∃ block size align, B.resize block size align s = .error brk) ∨
      ∃ block, B.free block s = .error brk)

namespace Act.BreaksOnly

variable {allowed : Breakdown → Prop}

theorem bind {x : Act β α} {f : α → Act β δ} {s : β × Machine} (hx : x.BreaksOnly allowed s)
    (hf : ∀ a t, x s = .ok (a, t) → (f a).BreaksOnly allowed t) :
    (x >>= f).BreaksOnly allowed s := by
  intro brk h
  rw [bind_apply] at h
  cases hxs : x s with
  | error brk' =>
    rw [hxs] at h
    cases h
    exact hx brk hxs
  | ok r =>
    rw [hxs] at h
    exact hf r.1 r.2 hxs brk h

theorem imp {x : Act β α} {s : β × Machine} {allowed' : Breakdown → Prop}
    (h : x.BreaksOnly allowed s) (himp : ∀ {brk}, allowed brk → allowed' brk) :
    x.BreaksOnly allowed' s :=
  fun brk hbrk => himp (h brk hbrk)

theorem of_ok {x : Act β α} {s t : β × Machine} {a : α} (h : x s = .ok (a, t)) :
    x.BreaksOnly allowed s := by
  intro brk hbrk
  rw [h] at hbrk
  cases hbrk

/-- An action that breaks off in no way returns. -/
theorem returns {x : Act β α} {s : β × Machine} (h : x.BreaksOnly (fun _ => False) s) :
    ∃ a t, x s = .ok (a, t) := by
  cases hx : x s with
  | error brk => exact absurd hx (h brk)
  | ok r => exact ⟨r.1, r.2, rfl⟩

theorem pure (a : α) (s : β × Machine) : (Pure.pure a : Act β α).BreaksOnly allowed s :=
  of_ok (pure_apply a s)

theorem emit (e : Event) (s : β × Machine) : (Act.emit e).BreaksOnly allowed s :=
  of_ok (emit_apply e s.1 s.2)

theorem setOwn (l : L) (s : (L × β) × Machine) : (Act.setOwn l).BreaksOnly allowed s :=
  of_ok (setOwn_apply s.1.1 l s.1.2 s.2)

theorem changeMemory (f : Memory → Memory) (s : β × Machine) :
    (Act.changeMemory f).BreaksOnly allowed s :=
  of_ok (changeMemory_apply f s.1 s.2)

theorem demand {p : Prop} [Decidable p] {fault : Fault} {s : β × Machine}
    (h : ¬ p → allowed (s.2.breakOff fault)) :
    (liftM (Fault.demand p fault) : Act β Unit).BreaksOnly allowed s := by
  intro brk hbrk
  by_cases hp : p
  · rw [Fault.demand_of hp] at hbrk
    cases hbrk
  · rw [Fault.demand_of_not hp] at hbrk
    cases hbrk
    exact h hp

/-- What breaks off below breaks off above. -/
theorem below {x : Act β α} {s : (L × β) × Machine} (hx : x.BreaksOnly allowed (s.1.2, s.2)) :
    (Act.below x : Act (L × β) α).BreaksOnly allowed s := by
  intro brk h
  obtain ⟨⟨l, b⟩, m⟩ := s
  rw [below_apply] at h
  cases hxs : x (b, m) with
  | error brk' =>
    rw [hxs] at h
    cases h
    exact hx brk hxs
  | ok r =>
    rw [hxs] at h
    cases h

theorem own_bind {f : L → Act (L × β) α} {s : (L × β) × Machine}
    (hf : (f s.1.1).BreaksOnly allowed s) : (Act.own >>= f).BreaksOnly allowed s := by
  refine bind (of_ok (own_ok.2 ⟨rfl, rfl⟩)) ?_
  intro l t h
  obtain ⟨rfl, rfl⟩ := own_ok.1 h
  exact hf

theorem lift_bind {x : Except Fault α} {a : α} {f : α → Act β δ} {s : β × Machine}
    (hx : x = .ok a) (hf : (f a).BreaksOnly allowed s) :
    ((liftM x : Act β α) >>= f).BreaksOnly allowed s := by
  refine bind (of_ok (lift_ok.2 ⟨hx, rfl⟩)) ?_
  intro a' t h
  obtain ⟨ha, rfl⟩ := lift_ok.1 h
  obtain rfl : a = a' := Except.ok.inj (hx.symm.trans ha)
  exact hf

theorem pure_bind {a : α} {f : α → Act β δ} {s : β × Machine}
    (hf : (f a).BreaksOnly allowed s) : ((Pure.pure a : Act β α) >>= f).BreaksOnly allowed s := by
  refine bind (pure a s) ?_
  intro a' t h
  obtain ⟨rfl, rfl⟩ := pure_ok.1 h
  exact hf

theorem emit_bind {e : Event} {f : Unit → Act β α} {s : β × Machine}
    (hf : (f ()).BreaksOnly allowed (s.1, s.2.report [e])) :
    (Act.emit e >>= f).BreaksOnly allowed s := by
  refine bind (emit e s) ?_
  intro a t h
  rw [emit_ok.1 h]
  exact hf

theorem setOwn_bind {l : L} {f : Unit → Act (L × β) α} {s : (L × β) × Machine}
    (hf : (f ()).BreaksOnly allowed ((l, s.1.2), s.2)) :
    (Act.setOwn l >>= f).BreaksOnly allowed s := by
  refine bind (setOwn l s) ?_
  intro a t h
  rw [setOwn_ok.1 h]
  exact hf

theorem below_bind {x : Act β α} {f : α → Act (L × β) δ} {s : (L × β) × Machine}
    (hx : x.BreaksOnly allowed (s.1.2, s.2))
    (hf : ∀ a u, x (s.1.2, s.2) = .ok (a, u) →
      (f a).BreaksOnly allowed ((s.1.1, u.1), u.2)) :
    ((Act.below x : Act (L × β) α) >>= f).BreaksOnly allowed s := by
  refine bind (below hx) ?_
  intro a t h
  obtain ⟨u, hu, rfl⟩ := below_ok.1 h
  exact hf a u hu

/-- A request that is served breaks off as the service does. -/
theorem allocBy {serve : Nat → Nat → Act β Answer} {size align : Nat} {s : β × Machine}
    (h : (serve size (normalizeAlign align)).BreaksOnly allowed s) :
    (AllocChain.allocBy serve size align).BreaksOnly allowed s := by
  simp only [AllocChain.allocBy]
  cases hc : checkRequest size align with
  | error e => exact pure _ _
  | ok a =>
    obtain ⟨_, _, rfl⟩ := checkRequest_eq_ok_iff.1 hc
    exact h

end Act.BreaksOnly

/-! ### Just how an action breaks off -/

/-- From state `s` the action breaks off just as `cause` says. -/
def Act.BreaksJust (cause : Breakdown → Prop) (x : Act β α) (s : β × Machine) : Prop :=
  ∀ brk, x s = .error brk ↔ cause brk

namespace Act.BreaksJust

variable {cause cause' : Breakdown → Prop}

theorem of_only {x : Act β α} {s : β × Machine} (h : x.BreaksOnly (fun _ => False) s)
    (hno : ∀ brk, ¬ cause brk) : x.BreaksJust cause s :=
  fun brk => ⟨fun hbrk => (h brk hbrk).elim, fun hcause => absurd hcause (hno brk)⟩

theorem only {x : Act β α} {s : β × Machine} (h : x.BreaksJust cause s) :
    x.BreaksOnly cause s :=
  fun brk => (h brk).1

theorem congr {x : Act β α} {s : β × Machine} (h : x.BreaksJust cause s)
    (hcause : ∀ brk, cause brk ↔ cause' brk) : x.BreaksJust cause' s :=
  fun brk => (h brk).trans (hcause brk)

/-- An action that returns, and another one after it. -/
theorem after {x : Act β α} {f : α → Act β δ} {s t : β × Machine} {a : α} (hx : x s = .ok (a, t))
    (hf : (f a).BreaksJust cause t) : (x >>= f).BreaksJust cause s := by
  intro brk
  rw [bind_apply, hx]
  exact hf brk

theorem own_bind {f : L → Act (L × β) α} {s : (L × β) × Machine}
    (hf : (f s.1.1).BreaksJust cause s) : (Act.own >>= f).BreaksJust cause s :=
  .after (own_ok.2 ⟨rfl, rfl⟩) hf

theorem lift_bind {x : Except Fault α} {a : α} {f : α → Act β δ} {s : β × Machine}
    (hx : x = .ok a) (hf : (f a).BreaksJust cause s) :
    ((liftM x : Act β α) >>= f).BreaksJust cause s :=
  .after (lift_ok.2 ⟨hx, rfl⟩) hf

/-- An action and others after it, which return. -/
theorem before {x : Act β α} {f : α → Act β δ} {s : β × Machine} (hx : x.BreaksJust cause s)
    (hf : ∀ a t, x s = .ok (a, t) → (f a).BreaksOnly (fun _ => False) t) :
    (x >>= f).BreaksJust cause s := by
  intro brk
  rw [← hx brk, bind_apply]
  cases hxs : x s with
  | error brk' => simp [Except.bind]
  | ok r =>
    refine ⟨fun h => ?_, fun h => by cases h⟩
    exact (hf r.1 r.2 hxs brk h).elim

theorem below {x : Act β α} {s : (L × β) × Machine} (hx : x.BreaksJust cause (s.1.2, s.2)) :
    (Act.below x : Act (L × β) α).BreaksJust cause s := by
  intro brk
  obtain ⟨⟨l, b⟩, m⟩ := s
  rw [← hx brk, below_apply]
  cases x (b, m) <;> simp [Except.map]

/-- An action that returns under some condition, and is another one otherwise. -/
theorem of_ite {x y : Act β α} {s t : β × Machine} {a : α} {p : Prop} [Decidable p]
    (hx : x s = if p then .ok (a, t) else y s) (hy : ¬ p → y.BreaksJust cause s) :
    x.BreaksJust (fun brk => ¬ p ∧ cause brk) s := by
  intro brk
  rw [hx]
  by_cases hp : p
  · simp [hp]
  · rw [if_neg hp, hy hp brk]
    exact (and_iff_right hp).symm

/-- A valid request breaks off as the service does, and no other one. -/
theorem allocBy {serve : Nat → Nat → Act β Answer} {size align : Nat} {s : β × Machine}
    (h : (∃ k, normalizeAlign align = 2 ^ k) →
      (serve size (normalizeAlign align)).BreaksJust cause s) :
    (AllocChain.allocBy serve size align).BreaksJust
      (fun brk => ValidRequest size align ∧ cause brk) s := by
  by_cases hvalid : ValidRequest size align
  · rw [allocBy_valid hvalid.1 hvalid.2]
    exact (h hvalid.2).congr fun brk => (and_iff_right hvalid).symm
  · have hrefused : ∃ e, AllocChain.allocBy serve size align s = .ok (.error e, s) := by
      simp only [AllocChain.allocBy]
      cases hc : checkRequest size align with
      | error e => exact ⟨e, rfl⟩
      | ok a =>
        obtain ⟨hs, hpow, _⟩ := checkRequest_eq_ok_iff.1 hc
        exact absurd ⟨Nat.pos_of_ne_zero hs, Word.isPowerOfTwo_iff.1 hpow⟩ hvalid
    obtain ⟨e, he⟩ := hrefused
    exact .of_only (.of_ok he) fun brk hbrk => hvalid hbrk.1

end Act.BreaksJust

/-! ### Deeds -/

namespace Steady

open Act

variable {A : Allocator γ} {adjust : Slice → Nat → Nat → Act γ Answer} {inv : γ × Machine → Prop}
  {allowed : Breakdown → Prop} {s : γ × Machine} {block : Slice} {size align : Nat}

/-- Moving a block breaks off as a request or a release does, or because the copy would overlap. -/
theorem relocate_breaksOnly (h : Steady A adjust inv) (hi : inv s)
    (halloc : ∀ {s size align}, inv s → (A.alloc size align).BreaksOnly allowed s)
    (hfree : ∀ {s block}, inv s → (A.free block).BreaksOnly allowed s)
    (hcopy : ∀ {fresh t}, A.alloc size align s = .ok (.ok fresh, t) → ¬ block.CopiesApart fresh →
      allowed (t.2.breakOff .copyOverlap)) :
    (AllocChain.relocate A.alloc A.free block size align).BreaksOnly allowed s := by
  simp only [AllocChain.relocate]
  refine .bind (halloc hi) ?_
  intro answer t ha
  cases answer with
  | error e => exact .pure _ _
  | ok fresh =>
    refine .bind (.demand fun hover => hcopy ha hover) ?_
    intro _ t' ht'
    obtain ⟨_, rfl⟩ := lift_ok.1 ht'
    refine .bind (.changeMemory _ _) ?_
    intro _ u hu
    rw [changeMemory_ok.1 hu]
    exact .bind (hfree (h.machine (h.alloc hi ha))) fun _ _ _ => .pure _ _

/-- A deed breaks off as a request, a release or the adjustment that it asks for does. -/
theorem perform_breaksOnly (h : Steady A adjust inv) (d : Deed)
    (halloc : ∀ size align, (A.alloc size align).BreaksOnly allowed s)
    (hfree : ∀ block, (A.free block).BreaksOnly allowed s)
    (hadjust : ∀ block size align, d = .resize block size align → block.isNull = false →
      size ≠ 0 → (∃ k, normalizeAlign align = 2 ^ k) →
      (adjust block size (normalizeAlign align)).BreaksOnly allowed s) :
    (A.perform d).BreaksOnly allowed s := by
  cases d with
  | alloc size align => exact halloc _ _
  | allocZeroed size align =>
    simp only [Allocator.perform, Allocator.allocZeroed]
    refine .bind (halloc _ _) ?_
    intro answer t _
    cases answer with
    | error e => exact .pure _ _
    | ok block => exact .bind (.changeMemory _ _) fun _ _ _ => .pure _ _
  | resize block size align =>
    simp only [Allocator.perform]
    rw [h.resize_eq]
    cases hn : block.isNull with
    | true =>
      rw [resizeBy_null hn]
      exact halloc _ _
    | false =>
      by_cases hs : size = 0
      · subst hs
        rw [resizeBy_zero hn]
        exact .bind (hfree _) fun _ _ _ => .pure _ _
      · simp only [resizeBy, hn, Bool.false_eq_true, if_false, if_neg hs]
        cases hc : checkRequest size align with
        | error e => exact .pure _ _
        | ok align' =>
          obtain ⟨_, hpow, rfl⟩ := checkRequest_eq_ok_iff.1 hc
          exact hadjust block size align rfl hn hs (Word.isPowerOfTwo_iff.1 hpow)
  | free block => exact .bind (hfree _) fun _ _ _ => .pure _ _
  | write addr byte =>
    simp only [Allocator.perform]
    exact .bind (.changeMemory _ _) fun _ _ _ => .pure _ _

end Steady
end AllocChain
