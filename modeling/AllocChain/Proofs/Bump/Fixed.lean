import AllocChain.Bump.Fixed
import AllocChain.Proofs.Bump.Stack

/-!
The fixed allocator is one bump region. Its operations are those of the region, so its blocks are
stacked in it (`Fixed.stacking`).
-/

namespace AllocChain.Fixed

open Region Memory

variable {s t : Region × Machine} {mem : Slice} {size align : Nat} {r : Answer}

/-- The entries lie in the region. -/
def Kept (es : List Entry) (s : Region × Machine) : Prop := s.1.Sound s.2.memory es

/-- Forgets all blocks. -/
def reset : Step Unit := do
  let (r, machine) ← get
  set (r.reset, machine)

theorem reset_kept {es : List Entry} (hk : Kept es s) (h : reset s = .ok ((), t)) : Kept [] t := by
  simp only [reset, Act.bind_ok, Act.get_ok, Act.set_ok] at h
  obtain ⟨_, _, ⟨rfl, rfl⟩, rfl⟩ := h
  have hbound : s.1.base + s.1.capacity < wordLimit := Sound.bounded hk
  exact sound_empty hbound (Nat.zero_le _)

theorem push_ok (h : push size align s = .ok (r, t)) :
    (∃ e, r = .error e ∧ t = s) ∨
      ∃ block region memory es, r = .ok block ∧
        s.1.alloc s.2.memory size align = .ok (some (block, region, memory)) ∧
        t = (region, (s.2.mapMemory fun _ => memory).report es) := by
  simp only [push, Act.bind_ok, Act.get_ok, Act.lift_ok] at h
  obtain ⟨_, _, ⟨rfl, rfl⟩, found, _, ⟨halloc, rfl⟩, h⟩ := h
  cases found with
  | none =>
    simp only [Act.pure_ok] at h
    exact .inl ⟨_, h⟩
  | some found =>
    obtain ⟨block, region, memory⟩ := found
    simp only [Act.bind_ok, Act.set_ok, Act.emit_ok, Act.pure_ok] at h
    obtain ⟨_, _, rfl, _, _, rfl, rfl, rfl⟩ := h
    exact .inr ⟨block, region, memory, _, rfl, halloc, rfl⟩

theorem free_ok (h : free mem s = .ok ((), t)) :
    (mem.isNull = true ∧ t = s) ∨
      mem.isNull = false ∧
        ((∃ es, s.1.freeTop s.2.memory mem = .ok none ∧ t = (s.1, s.2.report es)) ∨
          ∃ region, s.1.freeTop s.2.memory mem = .ok (some region) ∧ t = (region, s.2)) := by
  simp only [free] at h
  cases hn : mem.isNull with
  | true =>
    simp only [hn, if_true, Act.pure_ok] at h
    exact .inl ⟨rfl, h.2⟩
  | false =>
    simp only [hn, Bool.false_eq_true, if_false, Act.bind_ok, Act.get_ok, Act.lift_ok] at h
    obtain ⟨_, _, ⟨rfl, rfl⟩, freed, _, ⟨hfree, rfl⟩, h⟩ := h
    refine .inr ⟨rfl, ?_⟩
    cases freed with
    | none => exact .inl ⟨_, hfree, Act.emit_ok.1 h⟩
    | some region => exact .inr ⟨region, hfree, Act.set_ok.1 h⟩

theorem adjust_ok (h : adjust mem size align s = .ok (r, t)) :
    (∃ region es, s.1.resizeInPlace mem size align = .ok (some region) ∧
        r = .ok ⟨mem.addr, size⟩ ∧ t = (region, s.2.report es)) ∨
      relocate alloc free mem size align s = .ok (r, t) := by
  simp only [adjust, Act.bind_ok, Act.get_ok, Act.lift_ok] at h
  obtain ⟨_, _, ⟨rfl, rfl⟩, resized, _, ⟨hres, rfl⟩, h⟩ := h
  cases resized with
  | none => exact .inr h
  | some region =>
    simp only [Act.bind_ok, Act.set_ok, Act.emit_ok, Act.pure_ok] at h
    obtain ⟨_, _, rfl, _, _, rfl, rfl, rfl⟩ := h
    exact .inl ⟨region, _, hres, rfl, rfl⟩

/-- The fixed allocator stacks its blocks in its region. -/
theorem stacking : Stacking allocator adjust (fun r => [r]) Kept where
  resize_eq := rfl
  alloc_zero {align s r t} h := by
    change allocBy push 0 align s = .ok (r, t) at h
    exact allocBy_zero h
  free_null := by
    rintro block s t hn hf
    rcases free_ok hf with ⟨_, ht⟩ | ⟨hn', _⟩
    · exact ht
    · rw [hn] at hn'
      cases hn'
  perm hp hk := Region.Sound.perm hk hp
  nonempty hk := Region.Sound.nonempty hk
  lower hk e he := by
    have := Region.Sound.lower hk e he
    omega
  bounded hk e he := by
    have h1 := Region.Sound.upper hk e he
    have h2 := Region.Sound.used_le hk
    have h3 := Region.Sound.bounded hk
    simp only [Slice.Bounded]
    omega
  apart hk := Region.Sound.apart hk
  write hk hw := Region.Sound.memory hk <| agreesOn_headers
    (fun e he => by have := Region.Sound.lower hk e he; omega) (Region.Sound.apart hk) hw
  alloc := by
    rintro es s size align block t hk ha
    rcases allocBy_ok ha with ⟨_, hbad, _⟩ | ⟨hs, _, hpush⟩
    · cases hbad
    rcases push_ok hpush with ⟨_, hbad, _⟩ | ⟨_, region, memory, _, hans, halloc, rfl⟩
    · cases hbad
    cases hans
    obtain ⟨_, hdvd, hlen, hlow, hend, _, _⟩ := alloc_eq_some halloc
    obtain ⟨hnew, hagree⟩ := Region.Sound.push hk hs halloc
    have hin : s.1.buffer.Has block.addr := by
      simp only [buffer, Slice.Has]
      omega
    have hused : usedAt [s.1] block.addr = s.1.used := by simp [usedAt, hin]
    rw [hused]
    exact ⟨hlen, hdvd, hnew, hagree⟩
  alloc_refused := by
    rintro es s size align e t hk ha
    rcases allocBy_ok ha with ⟨_, _, rfl⟩ | ⟨_, _, hpush⟩
    · exact ⟨hk, .refl _ _⟩
    rcases push_ok hpush with ⟨_, _, rfl⟩ | ⟨_, _, _, _, hbad, _, _⟩
    · exact ⟨hk, .refl _ _⟩
    · cases hbad
  free := by
    rintro es s e t hk hf
    rcases free_ok hf with ⟨_, rfl⟩ | ⟨_, ⟨_, _, rfl⟩ | ⟨region, hfree, rfl⟩⟩
    · exact ⟨Region.Sound.forget hk, .refl _ _⟩
    · exact ⟨Region.Sound.forget hk, .refl _ _⟩
    · exact ⟨(Region.Sound.pop hk hfree).1, .refl _ _⟩
  adjust := by
    rintro es s e size align r t hk hs hpow ha
    rcases adjust_ok ha with ⟨region, _, hres, rfl, rfl⟩ | hreloc
    · obtain ⟨hdvd, hkept⟩ := Region.Sound.regrow hk hs hpow hres
      exact .inl ⟨rfl, hdvd, hkept, rfl⟩
    · exact .inr hreloc

theorem holds_nil {base capacity : Nat} {m : Machine} (h : base + capacity < wordLimit) :
    Stacking.Holds Kept [] ((⟨base, capacity, 0⟩ : Region), m) :=
  ⟨[], .nil, sound_empty h (Nat.zero_le _)⟩

theorem reset_holds {out : List Slice} (hs : Stacking.Holds Kept out s)
    (h : reset s = .ok ((), t)) : Stacking.Holds Kept [] t := by
  obtain ⟨_, _, hk⟩ := hs
  exact ⟨[], .nil, reset_kept hk h⟩

end AllocChain.Fixed
