import Mathlib.Data.List.Pairwise
import AllocChain.Proofs.Bump.Region
import AllocChain.Proofs.Lending

/-!
What the allocators that are made of bump regions have in common. `Stacking` lists what each
operation does to the entries: requests add one, frees take one away, and a resize either changes a
length in place or relocates. From this alone follow the law of a relocation (`Stacking.relocate`)
and the interface contract (`Stacking.contract`).
-/

namespace AllocChain

open Memory

namespace Region

/-- How much is used of the first region that has the address, and nothing if none has it. -/
def usedAt (regions : List Region) (addr : Nat) : Nat :=
  ((regions.find? fun r => decide (r.buffer.Has addr)).map (·.used)).getD 0

variable {entries : List Entry} {m m' : Memory}

theorem usedAt_eq_zero {regions : List Region} {addr : Nat}
    (h : ∀ r ∈ regions, ¬ r.buffer.Has addr) : usedAt regions addr = 0 := by
  have hfind : (regions.find? fun r => decide (r.buffer.Has addr)) = none :=
    List.find?_eq_none.2 fun r hr => by simpa using h r hr
  simp only [usedAt]
  rw [hfind]
  rfl

theorem apart_of_mem (h : entries.Pairwise fun e e' => e.extent.Disjoint e'.extent)
    {e e' : Entry} (he : e ∈ entries) (he' : e' ∈ entries) :
    e = e' ∨ e.extent.Disjoint e'.extent := by
  by_cases heq : e = e'
  · exact .inl heq
  · have : Std.Symm fun e e' : Entry => e.extent.Disjoint e'.extent := ⟨fun _ _ hd => hd.symm⟩
    exact .inr (h.forall he he' heq)

theorem Entry.block_inside {e : Entry} (h : headerSize ≤ e.block.addr) :
    e.block.Inside e.extent := by
  simp only [Slice.Inside, extent]
  omega

theorem agreesOn_headers (hlow : ∀ e ∈ entries, headerSize ≤ e.block.addr)
    (h : entries.Pairwise fun e e' => e.extent.Disjoint e'.extent)
    (hw : WrittenIn (entries.map (·.block)) m m') : AgreesOn (entries.map Entry.header) m m' := by
  intro header hmem a ha
  obtain ⟨e, he, rfl⟩ := List.mem_map.1 hmem
  refine hw a ?_
  intro block hb hba
  obtain ⟨e', he', rfl⟩ := List.mem_map.1 hb
  rcases apart_of_mem h he he' with rfl | hd
  · unfold Entry.header Slice.Has at ha
    simp only [Slice.Has] at hba
    have := hlow e he
    simp only at ha
    omega
  · exact hd a (e.header_inside.has ha) ((Entry.block_inside (hlow e' he')).has hba)

end Region

open Region

variable {γ : Type}

/-- The operations of an allocator of bump regions, by what they do to the entries. `regions` shows
the regions of a state, and `adjust` is what a resize to some bytes does. -/
structure Stacking (A : Allocator γ) (adjust : Slice → Nat → Nat → Act γ Answer)
    (regions : γ → List Region) (kept : List Entry → γ × Machine → Prop) : Prop where
  resize_eq : A.resize = resizeBy A.alloc A.free adjust
  alloc_zero {align s r t} : A.alloc 0 align s = .ok (r, t) → ∃ e, r = .error e
  free_null {block s t} : block.isNull = true → A.free block s = .ok ((), t) → t = s
  perm {es es' s} : es.Perm es' → kept es s → kept es' s
  nonempty {es s} : kept es s → ∀ e ∈ es, 0 < e.block.len
  lower {es s} : kept es s → ∀ e ∈ es, headerSize ≤ e.block.addr
  bounded {es s} : kept es s → ∀ e ∈ es, e.block.Bounded
  apart {es s} : kept es s → es.Pairwise fun e e' => e.extent.Disjoint e'.extent
  write {es b m m'} : kept es (b, m) → WrittenIn (es.map (·.block)) m.memory m'.memory →
    kept es (b, m')
  alloc {es s size align block t} : kept es s → A.alloc size align s = .ok (.ok block, t) →
    block.len = size ∧ normalizeAlign align ∣ block.addr ∧
      kept (⟨block, usedAt (regions s.1) block.addr⟩ :: es) t ∧
      AgreesOn (es.map Entry.extent) s.2.memory t.2.memory
  alloc_refused {es s size align e t} : kept es s → A.alloc size align s = .ok (.error e, t) →
    kept es t ∧ AgreesOn (es.map Entry.extent) s.2.memory t.2.memory
  free {es s e t} : kept (e :: es) s → A.free e.block s = .ok ((), t) →
    kept es t ∧ AgreesOn (es.map Entry.extent) s.2.memory t.2.memory
  adjust {es s e size align r t} : kept (e :: es) s → 0 < size → (∃ k, align = 2 ^ k) →
    adjust e.block size align s = .ok (r, t) →
    r = .ok ⟨e.block.addr, size⟩ ∧ align ∣ e.block.addr ∧
        kept (⟨⟨e.block.addr, size⟩, e.below⟩ :: es) t ∧ t.2.memory = s.2.memory ∨
      relocate A.alloc A.free e.block size align s = .ok (r, t)

namespace Stacking

variable {A : Allocator γ} {adjust : Slice → Nat → Nat → Act γ Answer} {regions : γ → List Region}
  {kept : List Entry → γ × Machine → Prop} {es : List Entry} {e : Entry} {s t : γ × Machine}
  {size align : Nat} {block : Slice}

theorem not_null (h : Stacking A adjust regions kept) (hk : kept es s) (he : e ∈ es) :
    e.block.addr ≠ 0 := by
  have := h.lower hk e he
  simp only [headerSize] at this
  omega

theorem relocate (h : Stacking A adjust regions kept) (hk : kept (e :: es) s)
    (hr : AllocChain.relocate A.alloc A.free e.block size align s = .ok (.ok block, t)) :
    block.len = size ∧ normalizeAlign align ∣ block.addr ∧ block.addr ≠ e.block.addr ∧
      kept (⟨block, usedAt (regions s.1) block.addr⟩ :: es) t := by
  rcases relocate_ok hr with ⟨_, hbad, _⟩ | ⟨fresh, u, hfresh, halloc, hfree⟩
  · cases hbad
  cases hfresh
  obtain ⟨hlen, hdvd, hnew, _⟩ := h.alloc hk halloc
  have hcopied : kept (⟨block, usedAt (regions s.1) block.addr⟩ :: e :: es)
      (u.1, u.2.mapMemory (·.copyCommon e.block block)) :=
    h.write hnew ((writtenIn_copyCommon _ _ _).mem List.mem_cons_self)
  obtain ⟨hend, _⟩ := h.free (h.perm (.swap _ _ _) hcopied) hfree
  have hdisj := (List.pairwise_cons.1 (h.apart hnew)).1 e List.mem_cons_self
  refine ⟨hlen, hdvd, ?_, hend⟩
  intro heq
  have hhas := Slice.has_addr (h.nonempty hnew _ List.mem_cons_self)
  have hhas' := Slice.has_addr (h.nonempty hk e List.mem_cons_self)
  refine hdisj block.addr ((Entry.block_inside (h.lower hnew _ List.mem_cons_self)).has hhas) ?_
  rw [heq]
  exact (Entry.block_inside (h.lower hk e List.mem_cons_self)).has hhas'

/-- A resized block keeps its entry if it stays, and gets a new one if it moves. -/
theorem resize (h : Stacking A adjust regions kept) (hk : kept (e :: es) s) (hs : size ≠ 0)
    (hr : A.resize e.block size align s = .ok (.ok block, t)) :
    block.len = size ∧ normalizeAlign align ∣ block.addr ∧
      kept (⟨block, if block.addr = e.block.addr then e.below
        else usedAt (regions s.1) block.addr⟩ :: es) t := by
  have hnull := Slice.isNull_eq_false.2 (h.not_null hk List.mem_cons_self)
  rw [h.resize_eq] at hr
  rcases resizeBy_ok hnull hs hr with ⟨_, hbad, _⟩ | ⟨hpow, hadj⟩
  · cases hbad
  rcases h.adjust hk (Nat.pos_of_ne_zero hs) hpow hadj with ⟨hans, hdvd, hkept, _⟩ | hreloc
  · cases hans
    rw [if_pos rfl]
    exact ⟨rfl, hdvd, hkept⟩
  · obtain ⟨hlen, hdvd, hne, hkept⟩ := h.relocate hk hreloc
    rw [if_neg hne]
    rw [normalizeAlign_idem] at hdvd
    exact ⟨hlen, hdvd, hkept⟩

theorem resize_refused (h : Stacking A adjust regions kept) (hk : kept (e :: es) s)
    (hs : size ≠ 0) {err : AllocError} (hr : A.resize e.block size align s = .ok (.error err, t)) :
    kept (e :: es) t := by
  have hnull := Slice.isNull_eq_false.2 (h.not_null hk List.mem_cons_self)
  rw [h.resize_eq] at hr
  rcases resizeBy_ok hnull hs hr with ⟨_, _, rfl⟩ | ⟨hpow, hadj⟩
  · exact hk
  rcases h.adjust hk (Nat.pos_of_ne_zero hs) hpow hadj with ⟨hbad, _⟩ | hreloc
  · cases hbad
  rcases relocate_ok hreloc with ⟨_, _, halloc⟩ | ⟨_, _, hbad, _, _⟩
  · exact (h.alloc_refused hk halloc).1
  · cases hbad

theorem orderly (h : Stacking A adjust regions kept) : Orderly A where
  alloc_zero := h.alloc_zero
  resize_null hn := by rw [h.resize_eq]; exact resizeBy_null hn
  resize_zero hn := by rw [h.resize_eq]; exact resizeBy_zero hn
  free_null hn hf := by rw [h.free_null hn hf]; exact ⟨rfl, rfl⟩

/-- The blocks of the entries, in any order, are what is outstanding. -/
def Holds (kept : List Entry → γ × Machine → Prop) (out : List Slice) (s : γ × Machine) : Prop :=
  ∃ es : List Entry, (es.map (·.block)).Perm out ∧ kept es s

theorem entry_of_perm {kept : List Entry → Prop} {out : List Slice}
    (hperm : ∀ {es es'}, es.Perm es' → kept es → kept es')
    (h : ∃ es : List Entry, (es.map (·.block)).Perm (block :: out) ∧ kept es) :
    ∃ e es, e.block = block ∧ (es.map (·.block)).Perm out ∧ kept (e :: es) := by
  obtain ⟨es, hp, hk⟩ := h
  obtain ⟨e, he, rfl⟩ := List.mem_map.1 (hp.mem_iff.2 List.mem_cons_self)
  obtain ⟨pre, post, rfl⟩ := List.append_of_mem he
  have hmid : (pre ++ e :: post).Perm (e :: (pre ++ post)) := List.perm_middle
  refine ⟨e, pre ++ post, rfl, ?_, hperm hmid hk⟩
  exact ((hmid.map (·.block)).symm.trans hp).cons_inv

theorem holds_cons {out : List Slice} (hp : (es.map (·.block)).Perm out)
    (hk : kept (e :: es) s) : Holds kept (e.block :: out) s :=
  ⟨e :: es, hp.cons _, hk⟩

/-- An outstanding block is that of an entry. -/
theorem entry_of_holds (h : Stacking A adjust regions kept) {out : List Slice}
    (hh : Holds kept (block :: out) s) :
    ∃ e es, e.block = block ∧ (es.map (·.block)).Perm out ∧ kept (e :: es) s :=
  entry_of_perm h.perm hh

theorem agreesOn_blocks (h : Stacking A adjust regions kept) (hk : kept es s) {out : List Slice}
    (hp : (es.map (·.block)).Perm out) {m m' : Memory} (ha : AgreesOn (es.map Entry.extent) m m') :
    AgreesOn out m m' := by
  refine ha.inside ?_
  intro block hb
  obtain ⟨e, he, rfl⟩ := List.mem_map.1 (hp.mem_iff.2 hb)
  exact ⟨e.extent, List.mem_map_of_mem he, Entry.block_inside (h.lower hk e he)⟩

/-- Allocators of bump regions move what they cannot resize in place. -/
theorem lending (h : Stacking A adjust regions kept) : Lending A adjust (Holds kept) where
  resize_eq := h.resize_eq
  perm hp := fun ⟨es, hes, hk⟩ => ⟨es, hes.trans hp, hk⟩
  write := by
    rintro out b m m' ⟨es, hp, hk⟩ hw
    refine ⟨es, hp, h.write hk (hw.inside ?_)⟩
    intro block hb
    exact ⟨block, hp.mem_iff.2 hb, .refl _⟩
  apart := by
    rintro out s ⟨es, hp, hk⟩
    refine (hp.pairwise_iff fun hd => hd.symm).1 (List.pairwise_map.2 ?_)
    refine (h.apart hk).imp_of_mem fun {e e'} he he' hd => ?_
    exact hd.mono (Entry.block_inside (h.lower hk e he)) (Entry.block_inside (h.lower hk e' he'))
  bounded := by
    rintro out s ⟨es, hp, hk⟩ block hb
    obtain ⟨e, he, rfl⟩ := List.mem_map.1 (hp.mem_iff.2 hb)
    exact h.bounded hk e he
  nonnull := by
    rintro out s ⟨es, hp, hk⟩ block hb
    obtain ⟨e, he, rfl⟩ := List.mem_map.1 (hp.mem_iff.2 hb)
    exact h.not_null hk he
  alloc := by
    rintro out s size align block t ⟨es, hp, hk⟩ ha
    obtain ⟨hlen, hdvd, hnew, hsame⟩ := h.alloc hk ha
    exact ⟨⟨Nat.le_of_eq hlen.symm, hdvd⟩, holds_cons hp hnew, h.agreesOn_blocks hk hp hsame⟩
  alloc_refused := by
    rintro out s size align e t ⟨es, hp, hk⟩ ha
    obtain ⟨hkept, hsame⟩ := h.alloc_refused hk ha
    exact ⟨⟨es, hp, hkept⟩, h.agreesOn_blocks hk hp hsame⟩
  free := by
    rintro out s block t hh hf
    obtain ⟨e, es, rfl, hp, hk⟩ := h.entry_of_holds hh
    obtain ⟨hrest, hsame⟩ := h.free hk hf
    exact ⟨⟨es, hp, hrest⟩, h.agreesOn_blocks hrest hp hsame⟩
  adjust := by
    rintro out s old size align r t hh hs ⟨k, rfl⟩ ha
    obtain ⟨e, es, rfl, hp, hk⟩ := h.entry_of_holds hh
    rcases h.adjust hk hs ⟨k, rfl⟩ ha with ⟨rfl, hdvd, hkept, hmem⟩ | hreloc
    · refine .inl ⟨⟨Nat.le_refl _, ?_⟩, holds_cons hp hkept, ?_⟩
      · rwa [normalizeAlign_two_pow]
      · rw [hmem]
        exact ⟨.refl _ _, fun i _ _ => rfl⟩
    · exact .inr hreloc

/-- Allocators of bump regions meet the interface contract. -/
theorem contract (h : Stacking A adjust regions kept) : Contract A (Holds kept) :=
  h.lending.contract

end Stacking
end AllocChain
