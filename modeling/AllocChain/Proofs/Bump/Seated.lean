import AllocChain.Proofs.Bump.Fixed
import AllocChain.Proofs.Service

/-!
A fixed allocator whose buffer is a block of another allocator (`Fixed.Seated`). It never calls that
one, and it writes only into its buffer (`Fixed.Keeps`), so it offers the whole interface above
without disturbing anything below (`Fixed.seated_service`). A refused request leaves it as it was.
-/

namespace AllocChain

open Memory Region

variable {L α β γ : Type}

namespace Act

/-- An action of a layer that calls nothing below; the lower layers keep their bookkeeping. -/
def above (x : Act L α) : Act (L × β) α := fun ((l, b), m) => do
  let (a, (l, m)) ← x (l, m)
  return (a, ((l, b), m))

theorem above_apply (x : Act L α) (l : L) (b : β) (m : Machine) :
    above x ((l, b), m) = (x (l, m)).map fun r => (r.1, ((r.2.1, b), r.2.2)) := by
  unfold above
  cases h : x (l, m) <;> simp [h, bind, Except.bind, Except.map, pure, Except.pure]

theorem above_ok {x : Act L α} {s t : (L × β) × Machine} {a : α} :
    above x s = .ok (a, t) ↔ ∃ u, x (s.1.1, s.2) = .ok (a, u) ∧ t = ((u.1, s.1.2), u.2) := by
  obtain ⟨⟨l, b⟩, m⟩ := s
  rw [above_apply]
  rcases x (l, m) with e | ⟨a', u⟩
  · simp [Except.map]
  · constructor
    · intro h
      cases h
      exact ⟨u, rfl, rfl⟩
    · rintro ⟨_, h, rfl⟩
      cases h
      rfl

theorem above_bind (x : Act L α) (f : α → Act L γ) :
    (above (x >>= f) : Act (L × β) γ) = above x >>= fun a => above (f a) := by
  funext ⟨⟨l, b⟩, m⟩
  rw [bind_apply, above_apply, above_apply, bind_apply]
  cases x (l, m) with
  | error e => rfl
  | ok r =>
    simp only [Except.bind, Except.map, above_apply]

end Act

namespace Fixed

variable {s t u : Region × Machine} {mem : Slice} {size align : Nat} {r : Answer} {e : AllocError}

/-! ### Refusals -/

theorem alloc_refused (h : alloc size align s = .ok (.error e, t)) : t = s := by
  rcases allocBy_ok h with ⟨_, _, rfl⟩ | ⟨_, _, hpush⟩
  · rfl
  rcases push_ok hpush with ⟨_, _, rfl⟩ | ⟨_, _, _, _, hbad, _⟩
  · rfl
  · cases hbad

theorem resize_refused (hn : mem.isNull = false) (hs : size ≠ 0)
    (h : allocator.resize mem size align s = .ok (.error e, t)) : t = s := by
  rcases resizeBy_ok hn hs h with ⟨_, _, rfl⟩ | ⟨_, hadj⟩
  · rfl
  rcases adjust_ok hadj with ⟨_, _, _, hbad, _⟩ | hreloc
  · cases hbad
  rcases relocate_ok hreloc with ⟨_, heq, ha⟩ | ⟨_, _, hbad, _⟩
  · cases heq
    exact alloc_refused ha
  · cases hbad

/-! ### Writing into the buffer only -/

/-- The buffer is the same, and only there something was written. -/
def Keeps (s t : Region × Machine) : Prop :=
  t.1.buffer = s.1.buffer ∧ WrittenIn [s.1.buffer] s.2.memory t.2.memory

theorem Keeps.refl (s : Region × Machine) : Keeps s s := ⟨rfl, .refl _ _⟩

theorem Keeps.trans (h : Keeps s t) (h' : Keeps t u) : Keeps s u :=
  ⟨h'.1.trans h.1, h.2.trans (h.1 ▸ h'.2)⟩

theorem alloc_keeps (h : alloc size align s = .ok (r, t)) :
    Keeps s t ∧ ∀ block, r = .ok block → block.Inside s.1.buffer := by
  rcases allocBy_ok h with ⟨_, rfl, rfl⟩ | ⟨_, _, hpush⟩
  · exact ⟨.refl _, nofun⟩
  rcases push_ok hpush with ⟨_, rfl, rfl⟩ | ⟨block, region, memory, _, rfl, halloc, rfl⟩
  · exact ⟨.refl _, nofun⟩
  · obtain ⟨hwritten, hin⟩ := alloc_writes halloc
    refine ⟨⟨alloc_buffer halloc, hwritten⟩, ?_⟩
    rintro _ ⟨⟩
    exact hin

theorem free_keeps (h : free mem s = .ok ((), t)) : Keeps s t := by
  rcases free_ok h with ⟨_, rfl⟩ | ⟨_, ⟨_, _, rfl⟩ | ⟨region, hfree, rfl⟩⟩
  · exact .refl _
  · exact ⟨rfl, .refl _ _⟩
  · exact ⟨freeTop_buffer hfree, .refl _ _⟩

theorem resize_keeps (hn : mem.isNull = false) (hs : size ≠ 0)
    (h : allocator.resize mem size align s = .ok (r, t)) : Keeps s t := by
  rcases resizeBy_ok hn hs h with ⟨_, _, rfl⟩ | ⟨_, hadj⟩
  · exact .refl _
  rcases adjust_ok hadj with ⟨region, _, hres, _, rfl⟩ | hreloc
  · exact ⟨resizeInPlace_buffer hres, .refl _ _⟩
  rcases relocate_ok hreloc with ⟨_, _, ha⟩ | ⟨fresh, v, _, ha, hf⟩
  · exact (alloc_keeps ha).1
  · obtain ⟨hkeeps, hin⟩ := alloc_keeps ha
    have hcopied : Keeps v (v.1, v.2.mapMemory (·.copyCommon mem fresh)) := by
      refine ⟨rfl, (writtenIn_copyCommon v.2.memory mem fresh).inside fun block hb => ?_⟩
      rw [List.mem_singleton.1 hb, hkeeps.1]
      exact ⟨_, List.mem_singleton_self _, hin fresh rfl⟩
    exact (hkeeps.trans hcopied).trans (free_keeps hf)

theorem reset_keeps (h : reset s = .ok ((), t)) : Keeps s t := by
  simp only [reset, Act.bind_ok, Act.get_ok, Act.set_ok] at h
  obtain ⟨_, _, ⟨rfl, rfl⟩, rfl⟩ := h
  exact ⟨rfl, .refl _ _⟩

/-! ### On top of another allocator -/

/-- What a fixed allocator offers. -/
theorem service : Service allocator (Stacking.Holds Kept) :=
  stacking.contract.service stacking.orderly

/-- The blocks lie in the region, and its buffer is a block of the allocator below. -/
structure Seated (holds : List Slice → β × Machine → Prop) (out : List Slice)
    (s : (Region × β) × Machine) : Prop where
  backed : holds [s.1.1.buffer] (s.1.2, s.2)
  stacked : Stacking.Holds Kept out (s.1.1, s.2)

namespace Seated

variable {B : Allocator β} {fit : Nat → Nat → Slice → Prop}
  {holds : List Slice → β × Machine → Prop} {out out' : List Slice}
  {s : (Region × β) × Machine}

/-- After something that writes into the buffer only, the buffer is still a block. -/
theorem kept (hB : Supply B fit holds) (h : Seated holds out s) (hk : Keeps (s.1.1, s.2) u)
    (hu : Stacking.Holds Kept out' u) : Seated holds out' ((u.1, s.1.2), u.2) := by
  refine ⟨?_, hu⟩
  rw [hk.1]
  exact hB.write h.backed hk.2

theorem inside (h : Seated holds out s) {block : Slice} (hb : block ∈ out) :
    block.Inside s.1.1.buffer := by
  obtain ⟨es, hp, hk⟩ := h.stacked
  obtain ⟨e, he, rfl⟩ := List.mem_map.1 (hp.mem_iff.2 hb)
  exact (Entry.block_inside (stacking.lower hk e he)).trans (Region.Sound.extent_inside hk he)

end Seated

/-- A fixed allocator offers the same wherever its buffer comes from. -/
theorem seated_service {B : Allocator β} {fit : Nat → Nat → Slice → Prop}
    {holds : List Slice → β × Machine → Prop} (hB : Supply B fit holds) :
    Service (allocator.lift Act.above) (Seated holds) where
  supply :=
    { perm := fun hp hh => ⟨hh.backed, service.supply.perm hp hh.stacked⟩
      report := fun hh => ⟨hB.report hh.backed, service.supply.report hh.stacked⟩
      write := fun hh hw => ⟨hB.write hh.backed (hw.inside fun block hb =>
        ⟨_, List.mem_singleton_self _, hh.inside hb⟩), service.supply.write hh.stacked hw⟩
      apart := fun hh => service.supply.apart hh.stacked
      bounded := fun hh => service.supply.bounded hh.stacked
      alloc := by
        intro out s size align block t hh ha
        obtain ⟨u, hcall, rfl⟩ := Act.above_ok.1 ha
        obtain ⟨hans, hnew⟩ := service.supply.alloc hh.stacked hcall
        exact ⟨hans, hh.kept hB (alloc_keeps hcall).1 hnew⟩
      alloc_refused := by
        intro out s size align e t hh ha
        obtain ⟨u, hcall, rfl⟩ := Act.above_ok.1 ha
        exact hh.kept hB (alloc_keeps hcall).1 (service.supply.alloc_refused hh.stacked hcall)
      resize := by
        intro out s old size align block t hh hn hs hr
        obtain ⟨u, hcall, rfl⟩ := Act.above_ok.1 hr
        obtain ⟨hans, hnew⟩ := service.supply.resize hh.stacked hn hs hcall
        exact ⟨hans, hh.kept hB (resize_keeps hn hs hcall) hnew⟩
      resize_refused := by
        intro out s old size align e t hh hn hs hr
        obtain ⟨u, hcall, rfl⟩ := Act.above_ok.1 hr
        exact hh.kept hB (resize_keeps hn hs hcall)
          (service.supply.resize_refused hh.stacked hn hs hcall)
      free := by
        intro out s block t hh hf
        obtain ⟨u, hcall, rfl⟩ := Act.above_ok.1 hf
        exact hh.kept hB (free_keeps hcall) (service.supply.free hh.stacked hcall) }
  custody :=
    { alloc := by
        intro out s size align r t hh ha
        obtain ⟨u, hcall, rfl⟩ := Act.above_ok.1 ha
        exact service.custody.alloc hh.stacked hcall
      resize := by
        intro out s old size align block t hh hn hs hr
        obtain ⟨u, hcall, rfl⟩ := Act.above_ok.1 hr
        exact service.custody.resize hh.stacked hn hs hcall
      resize_refused := by
        intro out s old size align e t hh hn hs hr
        obtain ⟨u, hcall, rfl⟩ := Act.above_ok.1 hr
        exact service.custody.resize_refused hh.stacked hn hs hcall
      free := by
        intro out s block t hh hf
        obtain ⟨u, hcall, rfl⟩ := Act.above_ok.1 hf
        exact service.custody.free hh.stacked hcall }
  resize_null hn := congrArg Act.above (service.resize_null hn)
  resize_zero hn := (congrArg Act.above (service.resize_zero hn)).trans (Act.above_bind _ _)
  free_null := by
    intro out s block t hh hn hr
    obtain ⟨u, hcall, rfl⟩ := Act.above_ok.1 hr
    obtain ⟨hkept, hsame⟩ := service.free_null hh.stacked hn hcall
    exact ⟨hh.kept hB (free_keeps hcall) hkept, hsame⟩

end Fixed
end AllocChain
