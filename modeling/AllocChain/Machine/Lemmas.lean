import AllocChain.Machine.Basic

/-!
How actions run: one equation for each way to build one. `bind_eq_ok_iff` takes apart a run that
ended without a fault; the other equations run an action on a given state.
-/

namespace AllocChain.Act

variable {β L α γ : Type}

theorem bind_eq_ok_iff {x : Act β α} {f : α → Act β γ} {s : β × Machine} {r : γ × β × Machine} :
    (x >>= f) s = .ok r ↔ ∃ a t, x s = .ok (a, t) ∧ f a t = .ok r := by
  change (x s >>= fun v => f v.1 v.2) = .ok r ↔ _
  rcases x s with e | ⟨a, t⟩
  · simp [bind, Except.bind]
  · constructor
    · exact fun h => ⟨a, t, rfl, h⟩
    · rintro ⟨_, _, h, hf⟩
      cases h
      exact hf

@[simp]
theorem bind_apply (x : Act β α) (f : α → Act β γ) (s : β × Machine) :
    (x >>= f) s = (x s).bind fun r => f r.1 r.2 := rfl

@[simp]
theorem map_apply (f : α → γ) (x : Act β α) (s : β × Machine) :
    (f <$> x) s = (x s).map fun r => (f r.1, r.2) := by
  change (x s >>= fun v => pure (f v.1, v.2)) = _
  rcases x s with e | r <;> rfl

@[simp]
theorem pure_apply (a : α) (s : β × Machine) : (pure a : Act β α) s = .ok (a, s) := rfl

@[simp]
theorem lift_apply (x : Except Fault α) (s : β × Machine) :
    (liftM x : Act β α) s = (x.mapError s.2.breakOff).map fun a => (a, s) := by
  cases x <;> rfl

@[simp]
theorem mapError_ok {ε ε' : Type} (f : ε → ε') (a : α) :
    (Except.ok a : Except ε α).mapError f = .ok a := rfl

@[simp]
theorem mapError_error {ε ε' : Type} (f : ε → ε') (e : ε) :
    (Except.error e : Except ε α).mapError f = .error (f e) := rfl

@[simp]
theorem get_apply (s : β × Machine) : (get : Act β (β × Machine)) s = .ok (s, s) := rfl

@[simp]
theorem set_apply (s t : β × Machine) : (set t : Act β PUnit) s = .ok (⟨⟩, t) := rfl

@[simp]
theorem emit_apply (e : Event) (b : β) (m : Machine) :
    emit e (b, m) = .ok ((), (b, { m with events := m.events ++ [e] })) := rfl

@[simp]
theorem record_apply (heap : Nat) (call : Call) (b : β) (m : Machine) :
    record heap call (b, m) = .ok ((), (b, { m with calls := m.calls ++ [(heap, call)] })) := rfl

@[simp]
theorem memory_apply (s : β × Machine) : memory s = .ok (s.2.memory, s) := rfl

@[simp]
theorem changeMemory_apply (f : Memory → Memory) (b : β) (m : Machine) :
    changeMemory f (b, m) = .ok ((), (b, { m with memory := f m.memory })) := rfl

@[simp]
theorem own_apply (l : L) (b : β) (m : Machine) : own ((l, b), m) = .ok (l, ((l, b), m)) := rfl

@[simp]
theorem setOwn_apply (l l' : L) (b : β) (m : Machine) :
    setOwn l' ((l, b), m) = .ok ((), ((l', b), m)) := rfl

@[simp]
theorem below_apply (x : Act β α) (l : L) (b : β) (m : Machine) :
    below x ((l, b), m) = (x (b, m)).map fun r => (r.1, ((l, r.2.1), r.2.2)) := by
  unfold below
  cases h : x (b, m) <;> simp [h, bind, Except.bind, Except.map, pure, Except.pure]

end AllocChain.Act
