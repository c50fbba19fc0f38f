import AllocChain.Machine.Lemmas

/-!
What a run that ended without a fault has done: one equivalence for each way to build an action.
Rewriting with them takes a run apart into the calls it made and the states between them.
-/

namespace AllocChain

/-- The machine after some reports. -/
def Machine.report (m : Machine) (es : List Event) : Machine := { m with events := m.events ++ es }

@[simp]
theorem Machine.report_memory (m : Machine) (es : List Event) :
    (m.report es).memory = m.memory := rfl

@[simp]
theorem Machine.report_report (m : Machine) (es es' : List Event) :
    (m.report es).report es' = m.report (es ++ es') := by
  simp [report, List.append_assoc]

theorem Machine.report_nil (m : Machine) : m.report [] = m := by
  simp [report]

/-- The machine with its memory changed. -/
def Machine.mapMemory (m : Machine) (f : Memory → Memory) : Machine :=
  { m with memory := f m.memory }

@[simp]
theorem Machine.mapMemory_memory (m : Machine) (f : Memory → Memory) :
    (m.mapMemory f).memory = f m.memory := rfl

@[simp]
theorem Machine.mapMemory_report (m : Machine) (es : List Event) (f : Memory → Memory) :
    (m.report es).mapMemory f = (m.mapMemory f).report es := rfl

namespace Fault

variable {α γ : Type}

theorem bind_ok {x : Except Fault α} {f : α → Except Fault γ} {c : γ} :
    x >>= f = .ok c ↔ ∃ a, x = .ok a ∧ f a = .ok c := by
  cases x <;> simp [bind, Except.bind]

theorem map_ok {f : α → γ} {x : Except Fault α} {c : γ} :
    f <$> x = .ok c ↔ ∃ a, x = .ok a ∧ c = f a := by
  cases x <;> simp [Functor.map, Except.map, eq_comm]

theorem pure_ok {a c : α} : (pure a : Except Fault α) = .ok c ↔ c = a := by
  simp [pure, Except.pure, eq_comm]

end Fault

namespace Act

variable {β L α γ : Type}

theorem bind_ok {x : Act β α} {f : α → Act β γ} {s t : β × Machine} {c : γ} :
    (x >>= f) s = .ok (c, t) ↔ ∃ a u, x s = .ok (a, u) ∧ f a u = .ok (c, t) := bind_eq_ok_iff

theorem pure_ok {a c : α} {s t : β × Machine} :
    (pure a : Act β α) s = .ok (c, t) ↔ c = a ∧ t = s := by
  simp [eq_comm]

theorem lift_ok {x : Except Fault α} {a : α} {s t : β × Machine} :
    (liftM x : Act β α) s = .ok (a, t) ↔ x = .ok a ∧ s = t := by
  rw [lift_apply]
  rcases x with e | b
  · constructor
    · intro h
      cases h
    · rintro ⟨h, _⟩
      cases h
  · constructor
    · intro h
      cases h
      exact ⟨rfl, rfl⟩
    · rintro ⟨h, rfl⟩
      cases h
      rfl

theorem emit_ok {e : Event} {s t : β × Machine} {a : Unit} :
    emit e s = .ok (a, t) ↔ t = (s.1, s.2.report [e]) := by
  obtain ⟨b, m⟩ := s
  simp [Machine.report, eq_comm]

theorem memory_ok {s t : β × Machine} {a : Memory} :
    memory s = .ok (a, t) ↔ a = s.2.memory ∧ s = t := by
  rw [memory_apply, Except.ok.injEq, Prod.mk.injEq, eq_comm]

theorem changeMemory_ok {f : Memory → Memory} {s t : β × Machine} {a : Unit} :
    changeMemory f s = .ok (a, t) ↔ t = (s.1, s.2.mapMemory f) := by
  obtain ⟨b, m⟩ := s
  simp [Machine.mapMemory, eq_comm]

theorem get_ok {s t a : β × Machine} :
    (get : Act β (β × Machine)) s = .ok (a, t) ↔ s = a ∧ s = t := by
  rw [get_apply, Except.ok.injEq, Prod.mk.injEq]

theorem set_ok {s t u : β × Machine} {a : PUnit} :
    (set u : Act β PUnit) s = .ok (a, t) ↔ t = u := by
  simp [eq_comm]

theorem own_ok {s t : (L × β) × Machine} {l : L} :
    own s = .ok (l, t) ↔ l = s.1.1 ∧ s = t := by
  obtain ⟨⟨l', b⟩, m⟩ := s
  rw [own_apply, Except.ok.injEq, Prod.mk.injEq, eq_comm]

theorem setOwn_ok {l : L} {s t : (L × β) × Machine} {a : Unit} :
    setOwn l s = .ok (a, t) ↔ t = ((l, s.1.2), s.2) := by
  obtain ⟨⟨l', b⟩, m⟩ := s
  simp [eq_comm]

theorem below_ok {x : Act β α} {s t : (L × β) × Machine} {a : α} :
    below x s = .ok (a, t) ↔
      ∃ u, x (s.1.2, s.2) = .ok (a, u) ∧ t = ((s.1.1, u.1), u.2) := by
  obtain ⟨⟨l, b⟩, m⟩ := s
  rw [below_apply]
  rcases x (b, m) with e | ⟨a', u⟩
  · simp [Except.map]
  · constructor
    · intro h
      cases h
      exact ⟨u, rfl, rfl⟩
    · rintro ⟨u', h, rfl⟩
      cases h
      rfl

theorem ok_of_toOption {ε : Type} {x : Except ε α} {a : α} (h : x.toOption = some a) :
    x = .ok a := by
  cases x with
  | error brk => cases h
  | ok a' => exact congrArg Except.ok (Option.some.inj h)

end Act
end AllocChain
