import AllocChain.Proofs.Frame
import AllocChain.Proofs.Lease
import AllocChain.Proofs.Trace

/-!
The whole interface, as clients and the allocators on top rely on it. A `Service` meets the
contract, takes a resize of null for a request and one to no bytes for a free, and changes nothing
that a client can see when null is freed. A client may do the deeds that are `Proper` for the blocks
that it holds; `Service.step` says which blocks it holds after one of them.
-/

namespace AllocChain

open Memory

variable {γ : Type}

/-- The contract, and what is agreed for null blocks and sizes of zero. -/
structure Service (A : Allocator γ) (holds : List Slice → γ × Machine → Prop) : Prop
    extends Contract A holds where
  resize_null {block size align} : block.isNull = true →
    A.resize block size align = A.alloc size align
  resize_zero {block align} : block.isNull = false → A.resize block 0 align = do
    A.free block
    return .ok .null
  free_null {out s block t} : holds out s → block.isNull = true → A.free block s = .ok ((), t) →
    holds out t ∧ AgreesOn out s.2.memory t.2.memory

/-- What an allocator that meets the contract and is orderly offers. -/
theorem Contract.service {A : Allocator γ} {holds : List Slice → γ × Machine → Prop}
    (h : Contract A holds) (hA : Orderly A) : Service A holds where
  toContract := h
  resize_null := hA.resize_null
  resize_zero := hA.resize_zero
  free_null := by
    rintro out ⟨b, m⟩ block ⟨b', m'⟩ hh hn hf
    obtain ⟨rfl, hmem⟩ := hA.free_null hn hf
    exact ⟨h.supply.write hh fun a _ => by rw [hmem], fun _ _ a _ => by rw [hmem]⟩

/-- The blocks that a client holds after a deed that it did with the blocks of `out`. -/
def Deed.leaves (out : List Slice) : Deed → Answer → List Slice
  | _, .error _ => out
  | .alloc _ _, .ok block | .allocZeroed _ _, .ok block => block :: out
  | .resize old size _, .ok block =>
    if old.isNull then block :: out
    else if size = 0 then out.erase old
    else block :: out.erase old
  | .free old, .ok _ => if old.isNull then out else out.erase old
  | .write _ _, .ok _ => out

/-- The deed resizes or frees null or a block of `out`, or writes into one of them. -/
def Deed.Proper (out : List Slice) : Deed → Prop
  | .resize block _ _ | .free block => block.isNull = true ∨ block ∈ out
  | .write addr _ => ∃ block ∈ out, block.Has addr
  | _ => True

instance (out : List Slice) : (d : Deed) → Decidable (d.Proper out)
  | .alloc .. | .allocZeroed .. => isTrue trivial
  | .resize .. | .free _ => inferInstanceAs (Decidable (_ ∨ _))
  | .write addr _ => inferInstanceAs (Decidable (∃ block ∈ out, block.Has addr))

theorem Deed.Proper.mono {out out' : List Slice} {d : Deed} (h : d.Proper out) (hs : out ⊆ out') :
    d.Proper out' := by
  cases d with
  | alloc | allocZeroed => trivial
  | resize block _ _ | free block => exact h.imp_right fun hb => hs hb
  | write addr _ =>
    obtain ⟨block, hb, hhas⟩ := h
    exact ⟨block, hs hb, hhas⟩

namespace Service

variable {A : Allocator γ} {holds : List Slice → γ × Machine → Prop} {out : List Slice}
  {s t : γ × Machine} {old : Slice} {size align : Nat} {r : Answer}

/-- What is offered is offered to each of several clients. -/
theorem framed (h : Service A holds) (others : List Slice) (m₀ : Memory) :
    Service A (Framed holds others m₀) where
  toContract := h.toContract.framed others m₀
  resize_null := h.resize_null
  resize_zero := h.resize_zero
  free_null hh hn hf := by
    obtain ⟨hkept, hsame⟩ := h.free_null hh.1 hn hf
    exact ⟨⟨hkept, hh.agreesOn hsame⟩, hsame.subset (List.subset_append_left _ _)⟩

theorem nonNull (h : Service A holds) : Service A (NonNull holds) where
  toContract := h.toContract.nonNull
  resize_null := h.resize_null
  resize_zero := h.resize_zero
  free_null hh hn hf := by
    obtain ⟨hkept, hsame⟩ := h.free_null hh.1 hn hf
    exact ⟨⟨hkept, hh.2⟩, hsame⟩

/-- A property of states that survives every operation may be added to what is known. -/
theorem adding {inv : γ × Machine → Prop} (h : Service A holds)
    (hmachine : ∀ {g m m'}, inv (g, m) → inv (g, m'))
    (halloc : ∀ {s size align r t}, inv s → A.alloc size align s = .ok (r, t) → inv t)
    (hresize : ∀ {s block size align r t}, inv s → A.resize block size align s = .ok (r, t) → inv t)
    (hfree : ∀ {s block t}, inv s → A.free block s = .ok ((), t) → inv t) :
    Service A fun out s => holds out s ∧ inv s where
  supply :=
    { perm := fun hp hh => ⟨h.supply.perm hp hh.1, hh.2⟩
      report := fun hh => ⟨h.supply.report hh.1, hmachine hh.2⟩
      write := fun hh hw => ⟨h.supply.write hh.1 hw, hmachine hh.2⟩
      apart := fun hh => h.supply.apart hh.1
      bounded := fun hh => h.supply.bounded hh.1
      alloc := fun hh ha =>
        ⟨(h.supply.alloc hh.1 ha).1, (h.supply.alloc hh.1 ha).2, halloc hh.2 ha⟩
      alloc_refused := fun hh ha => ⟨h.supply.alloc_refused hh.1 ha, halloc hh.2 ha⟩
      resize := fun hh hn hs hr => ⟨(h.supply.resize hh.1 hn hs hr).1,
        (h.supply.resize hh.1 hn hs hr).2, hresize hh.2 hr⟩
      resize_refused := fun hh hn hs hr =>
        ⟨h.supply.resize_refused hh.1 hn hs hr, hresize hh.2 hr⟩
      free := fun hh hf => ⟨h.supply.free hh.1 hf, hfree hh.2 hf⟩ }
  custody :=
    { alloc := fun hh => h.custody.alloc hh.1
      resize := fun hh => h.custody.resize hh.1
      resize_refused := fun hh => h.custody.resize_refused hh.1
      free := fun hh => h.custody.free hh.1 }
  resize_null := h.resize_null
  resize_zero := h.resize_zero
  free_null hh hn hf := by
    obtain ⟨hkept, hsame⟩ := h.free_null hh.1 hn hf
    exact ⟨⟨hkept, hfree hh.2 hf⟩, hsame⟩

theorem during {adjust : Slice → Nat → Nat → Act γ Answer} {inv : γ × Machine → Prop}
    (h : Service A holds) (hinv : Steady A adjust inv) :
    Service A fun out s => holds out s ∧ inv s :=
  h.adding hinv.machine hinv.alloc hinv.resize hinv.free

theorem resize_zero_ok (h : Service A holds) (hn : old.isNull = false)
    (hr : A.resize old 0 align s = .ok (r, t)) : r = .ok .null ∧ A.free old s = .ok ((), t) := by
  rw [h.resize_zero hn] at hr
  obtain ⟨_, _, hfree, hret⟩ := Act.bind_ok.1 hr
  obtain ⟨rfl, rfl⟩ := Act.pure_ok.1 hret
  exact ⟨rfl, hfree⟩

theorem step_alloc (h : Service A holds) (hh : holds out s)
    (ha : A.alloc size align s = .ok (r, t)) :
    (∃ block, r = .ok block ∧ holds (block :: out) t) ∨
      ∃ e, r = .error e ∧ holds out t ∧ AgreesOn out s.2.memory t.2.memory := by
  cases r with
  | ok block => exact .inl ⟨block, rfl, (h.supply.alloc hh ha).2⟩
  | error e => exact .inr ⟨e, rfl, h.supply.alloc_refused hh ha, h.custody.alloc hh ha⟩

/-- The blocks of a client after a proper deed. A refusal leaves their bytes as they were. -/
theorem step (h : Service A holds) (hh : holds out s) {d : Deed} (hd : d.Proper out)
    (hp : A.perform d s = .ok (r, t)) :
    holds (d.leaves out r) t ∧ ∀ e, r = .error e → AgreesOn out s.2.memory t.2.memory := by
  cases d with
  | alloc size align =>
    rcases h.step_alloc hh hp with ⟨block, rfl, hnew⟩ | ⟨e, rfl, hkept, hsame⟩
    · exact ⟨hnew, nofun⟩
    · exact ⟨hkept, fun _ _ => hsame⟩
  | allocZeroed size align =>
    rcases allocZeroed_ok hp with ⟨e, rfl, ha⟩ | ⟨block, u, rfl, ha, rfl⟩
    · exact ⟨h.supply.alloc_refused hh ha, fun _ _ => h.custody.alloc hh ha⟩
    · have hzeroed := writtenIn_write u.2.memory block.addr block.len fun _ => 0
      exact ⟨h.supply.write (h.supply.alloc hh ha).2 (hzeroed.mem List.mem_cons_self), nofun⟩
  | resize old size align =>
    cases hn : old.isNull with
    | true =>
      have ha : A.alloc size align s = .ok (r, t) := by rwa [← h.resize_null hn]
      rcases h.step_alloc hh ha with ⟨block, rfl, hnew⟩ | ⟨e, rfl, hkept, hsame⟩
      · simp only [Deed.leaves, hn, if_true]
        exact ⟨hnew, nofun⟩
      · exact ⟨hkept, fun _ _ => hsame⟩
    | false =>
      have hmem : old ∈ out := hd.resolve_left (by simp [hn])
      have hheld : holds (old :: out.erase old) s := h.supply.perm (List.perm_cons_erase hmem) hh
      by_cases hs : size = 0
      · subst hs
        obtain ⟨rfl, hf⟩ := h.resize_zero_ok hn hp
        simp only [Deed.leaves, hn, Bool.false_eq_true, if_false, if_true]
        exact ⟨h.supply.free hheld hf, nofun⟩
      cases r with
      | ok block =>
        simp only [Deed.leaves, hn, Bool.false_eq_true, if_false, if_neg hs]
        exact ⟨(h.supply.resize hheld hn hs hp).2, nofun⟩
      | error e =>
        have hback := (List.perm_cons_erase hmem).symm
        have hsame := h.custody.resize_refused hheld hn hs hp
        exact ⟨h.supply.perm hback (h.supply.resize_refused hheld hn hs hp),
          fun _ _ => hsame.subset hback.symm.subset⟩
  | free old =>
    obtain ⟨rfl, hf⟩ := perform_free_ok hp
    simp only [Deed.leaves]
    cases hn : old.isNull with
    | true =>
      rw [if_pos rfl]
      exact ⟨(h.free_null hh hn hf).1, nofun⟩
    | false =>
      have hmem : old ∈ out := hd.resolve_left (by simp [hn])
      rw [if_neg (by simp)]
      exact ⟨h.supply.free (h.supply.perm (List.perm_cons_erase hmem) hh) hf, nofun⟩
  | write addr byte =>
    obtain ⟨rfl, rfl⟩ := perform_write_ok hp
    exact ⟨h.supply.write hh (writtenIn_byte hd s.2.memory fun _ => byte), nofun⟩

end Service
end AllocChain
