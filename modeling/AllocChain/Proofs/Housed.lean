import AllocChain.Proofs.Request

/-!
Allocators that write only inside what they got from somebody else. `Housed` lists what a property
of such an allocator has to survive: requests whose blocks lie in the memory that was got, frees,
resizes in place, and whatever is written into that memory. Moving a block is a request, a copy into
the new block and a free, so the property survives every deed, and holds after every run
(`Housed.run`), if what clients store does no harm.
-/

namespace AllocChain

open Memory

variable {γ : Type}

/-- What a property of states has to survive if all that is written lies in the blocks of
`homes`. -/
structure Housed (A : Allocator γ) (adjust : Slice → Nat → Nat → Act γ Answer)
    (homes : γ → List Slice) (inv : γ × Machine → Prop) : Prop where
  resize_eq : A.resize = resizeBy A.alloc A.free adjust
  write {s f} : inv s → WrittenIn (homes s.1) s.2.memory (f s.2.memory) →
    inv (s.1, s.2.mapMemory f)
  alloc {s size align r t} : inv s → A.alloc size align s = .ok (r, t) →
    inv t ∧ ∀ block, r = .ok block → ∃ home ∈ homes t.1, block.Inside home
  free {s mem t} : inv s → A.free mem s = .ok ((), t) → inv t
  adjust {s mem size align r t} : inv s → adjust mem size align s = .ok (r, t) →
    inv t ∨ relocate A.alloc A.free mem size align s = .ok (r, t)

namespace Housed

variable {A : Allocator γ} {adjust : Slice → Nat → Nat → Act γ Answer} {homes : γ → List Slice}
  {inv : γ × Machine → Prop} {s t : γ × Machine} {mem : Slice} {size align : Nat} {r : Answer}

/-- A block is moved by a request and a free; what is copied goes into the new block. -/
theorem relocate (h : Housed A adjust homes inv) (hi : inv s)
    (hr : AllocChain.relocate A.alloc A.free mem size align s = .ok (r, t)) : inv t := by
  rcases relocate_ok hr with ⟨_, _, ha⟩ | ⟨fresh, u, _, ha, hf⟩
  · exact (h.alloc hi ha).1
  obtain ⟨hnew, hhome⟩ := h.alloc hi ha
  obtain ⟨home, hmem, hin⟩ := hhome fresh rfl
  have hcopy : WrittenIn (homes u.1) u.2.memory (u.2.memory.copyCommon mem fresh) :=
    (writtenIn_copyCommon _ _ _).inside fun slice hs =>
      ⟨home, hmem, by rwa [List.mem_singleton.1 hs]⟩
  exact h.free (h.write hnew hcopy) hf

theorem resize (h : Housed A adjust homes inv) (hi : inv s)
    (hr : A.resize mem size align s = .ok (r, t)) : inv t := by
  rw [h.resize_eq] at hr
  cases hn : mem.isNull with
  | true =>
    rw [resizeBy_null hn] at hr
    exact (h.alloc hi hr).1
  | false =>
    by_cases hs : size = 0
    · subst hs
      rw [resizeBy_zero hn] at hr
      obtain ⟨_, u, hf, hret⟩ := Act.bind_ok.1 hr
      rw [(Act.pure_ok.1 hret).2]
      exact h.free hi hf
    · rcases resizeBy_ok hn hs hr with ⟨_, _, rfl⟩ | ⟨_, hadj⟩
      · exact hi
      · rcases h.adjust hi hadj with hdone | hreloc
        · exact hdone
        · exact h.relocate hi hreloc

/-- One deed of a client, if what it stores does not matter. -/
theorem perform (h : Housed A adjust homes inv) (hi : inv s) {d : Deed}
    (hwrite : ∀ addr byte, d = .write addr byte →
      inv (s.1, s.2.mapMemory (·.write addr 1 fun _ => byte)))
    (hd : A.perform d s = .ok (r, t)) : inv t := by
  cases d with
  | alloc size align => exact (h.alloc hi hd).1
  | allocZeroed size align =>
    rcases allocZeroed_ok hd with ⟨_, _, ha⟩ | ⟨block, u, _, ha, rfl⟩
    · exact (h.alloc hi ha).1
    · obtain ⟨hnew, hhome⟩ := h.alloc hi ha
      obtain ⟨home, hmem, hin⟩ := hhome block rfl
      refine h.write hnew ((writtenIn_write _ block.addr block.len _).inside fun slice hs => ?_)
      exact ⟨home, hmem, by rwa [List.mem_singleton.1 hs]⟩
  | resize block size align => exact h.resize hi hd
  | free block => exact h.free hi (perform_free_ok hd).2
  | write addr byte =>
    rw [(perform_write_ok hd).2]
    exact hwrite addr byte rfl

/-- The property holds after every run, if what clients store does not matter. -/
theorem run (h : Housed A adjust homes inv) {sweeps : List (Act γ Unit)}
    {rule : List (Lease γ) → Deed → Prop} {start : γ × Machine} {live : List (Lease γ)}
    (hsweep : ∀ x ∈ sweeps, ∀ s t, inv s → x s = .ok ((), t) → inv t)
    (hwrite : ∀ {live s addr byte}, Run A sweeps rule start live s →
      rule live (.write addr byte) → inv s →
      inv (s.1, s.2.mapMemory (·.write addr 1 fun _ => byte)))
    (hstart : inv start) (hrun : Run A sweeps rule start live s) : inv s := by
  induction hrun with
  | start => exact hstart
  | deed hrun hrule hd ih =>
    refine h.perform ih ?_ hd
    rintro addr byte rfl
    exact hwrite hrun hrule ih
  | sweep _ hx hd ih => exact hsweep _ hx _ _ ih hd

end Housed
end AllocChain
