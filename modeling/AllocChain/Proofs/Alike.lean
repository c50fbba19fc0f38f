import AllocChain.Proofs.Inversion

/-!
Two runs of an action, side by side. They start from states that need not be equal, with the same
reports made so far and the same calls recorded. `x.Alike may post x' s s'` says that `x` from `s`
and `x'` from `s'` end with the same value, in states that `post` relates, or break off in the same
way, which they only do if they `may`; there is one rule for each way to build an action. Where
`may` is false, an action that is alike to itself returns (`Act.Alike.returns`).
-/

namespace AllocChain

variable {β L α δ : Type}

/-- The same has been reported and asked; the memories may differ. -/
def Machine.SameLog (m m' : Machine) : Prop := m.events = m'.events ∧ m.calls = m'.calls

theorem Machine.SameLog.refl (m : Machine) : m.SameLog m := ⟨rfl, rfl⟩

theorem Machine.SameLog.report {m m' : Machine} (h : m.SameLog m') (es : List Event) :
    (m.report es).SameLog (m'.report es) :=
  ⟨congrArg (· ++ es) h.1, h.2⟩

theorem Machine.SameLog.breakOff {m m' : Machine} (h : m.SameLog m') (fault : Fault) :
    m.breakOff fault = m'.breakOff fault := by
  rw [Machine.breakOff, Machine.breakOff, h.1, h.2]

theorem Machine.SameLog.record {m m' : Machine} (h : m.SameLog m') (heap : Nat) (call : Call) :
    Machine.SameLog { m with calls := m.calls ++ [(heap, call)] }
      { m' with calls := m'.calls ++ [(heap, call)] } :=
  ⟨h.1, congrArg (· ++ [(heap, call)]) h.2⟩

namespace Act

/-- Two results: both runs ended, with one value and one log, or both broke off in one way. -/
inductive Outcome (may : Prop) (post : α → β × Machine → β × Machine → Prop) :
    Except Breakdown (α × β × Machine) → Except Breakdown (α × β × Machine) → Prop
  | ends {a t t'} : t.2.SameLog t'.2 → post a t t' → Outcome may post (.ok (a, t)) (.ok (a, t'))
  | breaks {brk} : may → Outcome may post (.error brk) (.error brk)

/-- Run from states with one log, the actions have such results. -/
def Alike (may : Prop) (post : α → β × Machine → β × Machine → Prop) (x x' : Act β α)
    (s s' : β × Machine) : Prop :=
  s.2.SameLog s'.2 → Outcome may post (x s) (x' s')

namespace Alike

variable {may : Prop} {post post' : α → β × Machine → β × Machine → Prop} {x x' : Act β α}
  {s s' : β × Machine}

/-- A run that ends has another one beside it. -/
theorem of_ok {a : α} {t : β × Machine} (h : Alike may post x x' s s') (hlog : s.2.SameLog s'.2)
    (hx : x s = .ok (a, t)) : ∃ t', x' s' = .ok (a, t') ∧ t.2.SameLog t'.2 ∧ post a t t' := by
  have hends := h hlog
  rw [hx] at hends
  generalize hx' : x' s' = r at hends
  cases hends with
  | ends hlog' hpost => exact ⟨_, rfl, hlog', hpost⟩

theorem of_both {a a' : α} {t t' : β × Machine} (h : Alike may post x x' s s')
    (hlog : s.2.SameLog s'.2) (hx : x s = .ok (a, t)) (hx' : x' s' = .ok (a', t')) :
    a' = a ∧ t.2.SameLog t'.2 ∧ post a t t' := by
  obtain ⟨u, hu, hlog', hpost⟩ := h.of_ok hlog hx
  cases hu.symm.trans hx'
  exact ⟨rfl, hlog', hpost⟩

/-- What may not break off returns. -/
theorem returns (h : Alike False post x x s s) : ∃ a t, x s = .ok (a, t) ∧ post a t t := by
  have hends := h (.refl _)
  cases hx : x s with
  | error brk =>
    rw [hx] at hends
    cases hends
    contradiction
  | ok r =>
    rw [hx] at hends
    cases hends with
    | ends _ hpost => exact ⟨_, _, rfl, hpost⟩

theorem of_returns {a : α} {t : β × Machine} (hx : x s = .ok (a, t)) (hpost : post a t t) :
    Alike may post x x s s := by
  intro _
  rw [hx]
  exact .ends (.refl _) hpost

theorem imp (h : Alike may post x x' s s')
    (himp : ∀ a t t', x s = .ok (a, t) → x' s' = .ok (a, t') → post a t t' → post' a t t') :
    Alike may post' x x' s s' := by
  intro hlog
  have hends := h hlog
  generalize hx : x s = r at hends
  generalize hx' : x' s' = r' at hends
  cases hends with
  | ends hlog' hpost => exact .ends hlog' (himp _ _ _ hx hx' hpost)
  | breaks hmay => exact .breaks hmay

theorem bind {f f' : α → Act β δ} {post' : δ → β × Machine → β × Machine → Prop}
    (hx : Alike may post x x' s s') (hf : ∀ a t t', x s = .ok (a, t) → x' s' = .ok (a, t') →
      post a t t' → Alike may post' (f a) (f' a) t t') :
    Alike may post' (x >>= f) (x' >>= f') s s' := by
  intro hlog
  have hends := hx hlog
  rw [bind_apply, bind_apply]
  generalize hxs : x s = r at hends
  generalize hxs' : x' s' = r' at hends
  cases hends with
  | ends hlog' hpost => exact hf _ _ _ hxs hxs' hpost hlog'
  | breaks hmay => exact .breaks hmay

theorem pure {a : α} (h : post a s s') :
    Alike may post (Pure.pure a : Act β α) (Pure.pure a) s s' :=
  fun hlog => .ends hlog h

theorem pure_bind {a : δ} {f f' : δ → Act β α} (hf : Alike may post (f a) (f' a) s s') :
    Alike may post (Pure.pure a >>= f) (Pure.pure a >>= f') s s' :=
  hf

theorem emit {post : Unit → β × Machine → β × Machine → Prop} {e : Event}
    (h : post () (s.1, s.2.report [e]) (s'.1, s'.2.report [e])) :
    Alike may post (Act.emit e) (Act.emit e) s s' :=
  fun hlog => .ends (hlog.report [e]) h

theorem changeMemory {post : Unit → β × Machine → β × Machine → Prop} {f f' : Memory → Memory}
    (h : post () (s.1, s.2.mapMemory f) (s'.1, s'.2.mapMemory f')) :
    Alike may post (Act.changeMemory f) (Act.changeMemory f') s s' :=
  fun hlog => .ends hlog h

theorem setOwn {post : Unit → (L × β) × Machine → (L × β) × Machine → Prop} {l : L}
    {s s' : (L × β) × Machine} (h : post () ((l, s.1.2), s.2) ((l, s'.1.2), s'.2)) :
    Alike may post (Act.setOwn l) (Act.setOwn l) s s' :=
  fun hlog => .ends hlog h

/-- What is alike below is alike above. -/
theorem below {post : α → (L × β) × Machine → (L × β) × Machine → Prop} {s s' : (L × β) × Machine}
    (h : Alike may (fun a u u' => post a ((s.1.1, u.1), u.2) ((s'.1.1, u'.1), u'.2)) x x'
      (s.1.2, s.2) (s'.1.2, s'.2)) :
    Alike may post (Act.below x) (Act.below x') s s' := by
  intro hlog
  have hends := h hlog
  obtain ⟨⟨l, b⟩, m⟩ := s
  obtain ⟨⟨l', b'⟩, m'⟩ := s'
  rw [below_apply, below_apply]
  generalize x (b, m) = r at hends
  generalize x' (b', m') = r' at hends
  cases hends with
  | ends hlog' hpost => exact .ends hlog' hpost
  | breaks hmay => exact .breaks hmay

theorem emit_bind {e : Event} {f f' : Unit → Act β α}
    (hf : Alike may post (f ()) (f' ()) (s.1, s.2.report [e]) (s'.1, s'.2.report [e])) :
    Alike may post (Act.emit e >>= f) (Act.emit e >>= f') s s' :=
  fun hlog => hf (hlog.report [e])

theorem changeMemory_bind {g g' : Memory → Memory} {f f' : Unit → Act β α}
    (hf : Alike may post (f ()) (f' ()) (s.1, s.2.mapMemory g) (s'.1, s'.2.mapMemory g')) :
    Alike may post (Act.changeMemory g >>= f) (Act.changeMemory g' >>= f') s s' :=
  fun hlog => hf hlog

theorem memory_bind {f f' : Memory → Act β α}
    (hf : Alike may post (f s.2.memory) (f' s'.2.memory) s s') :
    Alike may post (Act.memory >>= f) (Act.memory >>= f') s s' :=
  fun hlog => hf hlog

theorem get_bind {f f' : β × Machine → Act β α} (hf : Alike may post (f s) (f' s') s s') :
    Alike may post (get >>= f) (get >>= f') s s' :=
  fun hlog => hf hlog

theorem set {post : PUnit → β × Machine → β × Machine → Prop} {t t' : β × Machine}
    (hlog : s.2.SameLog s'.2 → t.2.SameLog t'.2) (h : post ⟨⟩ t t') :
    Alike may post (set t : Act β PUnit) (set t') s s' :=
  fun hsame => .ends (hlog hsame) h

theorem set_bind {t t' : β × Machine} {f f' : PUnit → Act β α}
    (hlog : s.2.SameLog s'.2 → t.2.SameLog t'.2) (hf : Alike may post (f ⟨⟩) (f' ⟨⟩) t t') :
    Alike may post (MonadStateOf.set t >>= f) (MonadStateOf.set t' >>= f') s s' :=
  fun hsame => hf (hlog hsame)

theorem update_bind {g : β × Machine → β × Machine} {f f' : PUnit → Act β α}
    (hlog : s.2.SameLog s'.2 → (g s).2.SameLog (g s').2)
    (hf : Alike may post (f ⟨⟩) (f' ⟨⟩) (g s) (g s')) :
    Alike may post (modify g >>= f) (modify g >>= f') s s' :=
  fun hsame => hf (hlog hsame)

/-- Computing something first: both runs get a value, or both break off. -/
theorem lift_both {δ' : Type} {y : Except Fault δ} {y' : Except Fault δ'} {f : δ → Act β α}
    {f' : δ' → Act β α}
    (hy : may ∧ (∃ fault, y = .error fault ∧ y' = .error fault) ∨ ∃ a a', y = .ok a ∧ y' = .ok a')
    (hf : ∀ a a', y = .ok a → y' = .ok a' → Alike may post (f a) (f' a') s s') :
    Alike may post (liftM y >>= f) (liftM y' >>= f') s s' := by
  intro hlog
  rcases hy with ⟨hmay, fault, rfl, rfl⟩ | ⟨a, a', rfl, rfl⟩
  · have hends : Outcome may post (.error (s.2.breakOff fault)) (.error (s'.2.breakOff fault)) := by
      rw [hlog.breakOff fault]
      exact .breaks hmay
    exact hends
  · exact hf a a' rfl rfl hlog

theorem lift_bind {y : Except Fault δ} {f f' : δ → Act β α} (hy : may ∨ ∃ a, y = .ok a)
    (hf : ∀ a, y = .ok a → Alike may post (f a) (f' a) s s') :
    Alike may post (liftM y >>= f) (liftM y >>= f') s s' := by
  refine lift_both ?_ fun a a' ha ha' => ?_
  · cases y with
    | error fault => exact .inl ⟨hy.resolve_right (by simp), fault, rfl, rfl⟩
    | ok a => exact .inr ⟨a, a, rfl, rfl⟩
  · cases ha.symm.trans ha'
    exact hf a ha

theorem lift_ok_bind {y : Except Fault δ} {a : δ} {f f' : δ → Act β α} (hy : y = .ok a)
    (hf : Alike may post (f a) (f' a) s s') :
    Alike may post (liftM y >>= f) (liftM y >>= f') s s' := by
  refine lift_bind (.inr ⟨a, hy⟩) fun a' ha' => ?_
  cases hy.symm.trans ha'
  exact hf

theorem own_bind {f f' : L → Act (L × β) α}
    {post : α → (L × β) × Machine → (L × β) × Machine → Prop}
    {s s' : (L × β) × Machine} (hown : s'.1.1 = s.1.1)
    (hf : Alike may post (f s.1.1) (f' s.1.1) s s') :
    Alike may post (Act.own >>= f) (Act.own >>= f') s s' := by
  intro hlog
  have hf' : (Act.own >>= f') s' = f' s.1.1 s' := by
    rw [← hown]
    rfl
  rw [hf']
  exact hf hlog

theorem setOwn_bind {l : L} {f f' : Unit → Act (L × β) α}
    {post : α → (L × β) × Machine → (L × β) × Machine → Prop} {s s' : (L × β) × Machine}
    (hf : Alike may post (f ()) (f' ()) ((l, s.1.2), s.2) ((l, s'.1.2), s'.2)) :
    Alike may post (Act.setOwn l >>= f) (Act.setOwn l >>= f') s s' :=
  fun hlog => hf hlog

theorem below_bind {mid : δ → β × Machine → β × Machine → Prop} {y y' : Act β δ}
    {f f' : δ → Act (L × β) α} {post : α → (L × β) × Machine → (L × β) × Machine → Prop}
    {s s' : (L × β) × Machine} (hy : Alike may mid y y' (s.1.2, s.2) (s'.1.2, s'.2))
    (hf : ∀ a u u', y (s.1.2, s.2) = .ok (a, u) → y' (s'.1.2, s'.2) = .ok (a, u') → mid a u u' →
      Alike may post (f a) (f' a) ((s.1.1, u.1), u.2) ((s'.1.1, u'.1), u'.2)) :
    Alike may post (Act.below y >>= f) (Act.below y' >>= f') s s' := by
  have hbelow : Alike may (fun a t t' => ∃ u u', y (s.1.2, s.2) = .ok (a, u) ∧
      y' (s'.1.2, s'.2) = .ok (a, u') ∧ mid a u u' ∧ t = ((s.1.1, u.1), u.2) ∧
      t' = ((s'.1.1, u'.1), u'.2)) (Act.below y) (Act.below y') s s' := by
    refine below (hy.imp ?_)
    intro a u u' hu hu' hmid
    exact ⟨u, u', hu, hu', hmid, rfl, rfl⟩
  refine bind hbelow ?_
  rintro a _ _ _ _ ⟨u, u', hu, hu', hmid, rfl, rfl⟩
  exact hf a u u' hu hu' hmid

end Alike
end Act
end AllocChain
