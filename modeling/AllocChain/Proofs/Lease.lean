import Mathlib.Data.List.Nodup
import Mathlib.Data.List.Perm.Basic
import AllocChain.Proofs.Request

/-!
Runs of disciplined clients. The blocks of a client start at different addresses, so an address
picks one lease out (`Distinct.perm_without`). `Tenancy` lists what a relation between leases and
states has to survive: every answer that an allocator can give to someone who only names blocks
that it holds. What survives these holds after every run (`Tenancy.run`).
-/

namespace AllocChain

variable {γ : Type}

/-- No two leases start at the same address. -/
def Distinct (live : List (Lease γ)) : Prop := (live.map (·.block.addr)).Nodup

namespace Lease

variable {live : List (Lease γ)} {lease : Lease γ} {addr : Nat}

theorem mem_without : lease ∈ without live addr ↔ lease ∈ live ∧ lease.block.addr ≠ addr := by
  rw [without, List.mem_filter, bne_iff_ne]

theorem without_eq_self (h : ∀ lease ∈ live, lease.block.addr ≠ addr) : without live addr = live :=
  List.filter_eq_self.2 fun lease hl => bne_iff_ne.2 (h lease hl)

theorem map_store (live : List (Lease γ)) (addr : Nat) (byte : UInt8) :
    (live.map (·.store addr byte)).map (·.block) = live.map (·.block) := by
  rw [List.map_map]
  rfl

end Lease

open Lease

namespace Distinct

variable {live : List (Lease γ)} {lease : Lease γ}

theorem cons_iff : Distinct (lease :: live) ↔
    (∀ l ∈ live, l.block.addr ≠ lease.block.addr) ∧ Distinct live := by
  rw [Distinct, List.map_cons, List.nodup_cons, List.mem_map]
  simp only [not_exists, not_and]
  rfl

theorem eq_of_addr (h : Distinct live) {lease' : Lease γ} (hl : lease ∈ live)
    (hl' : lease' ∈ live) (heq : lease.block.addr = lease'.block.addr) : lease = lease' :=
  List.inj_on_of_nodup_map h hl hl' heq

theorem find_eq (h : Distinct live) (hl : lease ∈ live) :
    live.find? (fun l => l.block.addr == lease.block.addr) = some lease := by
  induction live with
  | nil => simp at hl
  | cons first live ih =>
    obtain ⟨hnew, hd⟩ := cons_iff.1 h
    rcases List.mem_cons.1 hl with rfl | hmem
    · simp
    · have hne : first.block.addr ≠ lease.block.addr := (hnew lease hmem).symm
      rw [List.find?_cons, beq_false_of_ne hne]
      exact ih hd hmem

theorem perm_without (h : Distinct live) (hl : lease ∈ live) :
    live.Perm (lease :: without live lease.block.addr) := by
  induction live with
  | nil => simp at hl
  | cons first live ih =>
    obtain ⟨hnew, hd⟩ := cons_iff.1 h
    rcases List.mem_cons.1 hl with rfl | hmem
    · have hrest : without (lease :: live) lease.block.addr = live := by
        rw [without, List.filter_cons_of_neg (by simp)]
        exact without_eq_self hnew
      rw [hrest]
    · have hne : first.block.addr ≠ lease.block.addr := (hnew lease hmem).symm
      have hrest : without (first :: live) lease.block.addr =
          first :: without live lease.block.addr := by
        rw [without, List.filter_cons_of_pos (by simpa using hne)]
        rfl
      rw [hrest]
      exact ((ih hd hmem).cons first).trans (.swap _ _ _)

theorem without_perm (h : Distinct live) {old : Slice} {rest : List Slice}
    (hp : (live.map (·.block)).Perm (old :: rest)) :
    ∃ lease ∈ live, lease.block = old ∧ ((without live old.addr).map (·.block)).Perm rest := by
  obtain ⟨lease, hl, rfl⟩ := List.mem_map.1 (hp.mem_iff.2 List.mem_cons_self)
  exact ⟨lease, hl, rfl, (((h.perm_without hl).map (·.block)).symm.trans hp).cons_inv⟩

end Distinct

theorem Memory.writtenIn_byte {blocks : List Slice} {addr : Nat}
    (h : ∃ block ∈ blocks, block.Has addr) (m : Memory) (f : Nat → UInt8) :
    Memory.WrittenIn blocks m (m.write addr 1 f) := by
  obtain ⟨block, hb, hhas⟩ := h
  refine (Memory.writtenIn_write m addr 1 f).inside ?_
  intro b hmem
  rw [List.mem_singleton.1 hmem]
  refine ⟨block, hb, ?_⟩
  simp only [Slice.Has] at hhas
  simp only [Slice.Inside]
  omega

/-- Storing a byte where a client may write changes none outside its blocks. -/
theorem Writable.writtenIn {live : List (Lease γ)} {addr : Nat} (h : Writable live addr)
    (m : Memory) (f : Nat → UInt8) :
    Memory.WrittenIn (live.map (·.block)) m (m.write addr 1 f) := by
  obtain ⟨lease, hl, hhas⟩ := h
  exact Memory.writtenIn_byte ⟨lease.block, List.mem_map_of_mem hl, hhas⟩ m f

/-- What a relation between leases and states has to survive to hold after all disciplined runs. -/
structure Tenancy (A : Allocator γ) (inv : List (Lease γ) → γ × Machine → Prop) : Prop where
  perm {live live' s} : live.Perm live' → inv live s → inv live' s
  distinct {live s} : inv live s → Distinct live
  alloc {live s size align block t} : inv live s → A.alloc size align s = .ok (.ok block, t) →
    inv (.fresh s block size align none :: live) t
  alloc_refused {live s size align e t} : inv live s → A.alloc size align s = .ok (.error e, t) →
    inv live t
  zero {live s s' block size align} : inv (.fresh s' block size align none :: live) s →
    inv (.fresh s' block size align (some 0) :: live)
      (s.1, s.2.mapMemory (·.write block.addr block.len fun _ => 0))
  resize {lease live s size align block t} : inv (lease :: live) s →
    lease.block.isNull = false → size ≠ 0 →
    A.resize lease.block size align s = .ok (.ok block, t) →
    inv (lease.renew s block size align :: live) t
  resize_refused {lease live s size align e t} : inv (lease :: live) s →
    lease.block.isNull = false → size ≠ 0 →
    A.resize lease.block size align s = .ok (.error e, t) → inv (lease :: live) t
  free {lease live s t} : inv (lease :: live) s → A.free lease.block s = .ok ((), t) → inv live t
  free_null {live s block t} : inv live s → block.isNull = true → A.free block s = .ok ((), t) →
    inv live t
  store {live s addr byte} : inv live s → Writable live addr →
    inv (live.map (·.store addr byte)) (s.1, s.2.mapMemory (·.write addr 1 fun _ => byte))

namespace Tenancy

variable {A : Allocator γ} {inv : List (Lease γ) → γ × Machine → Prop} {live : List (Lease γ)}
  {lease : Lease γ} {s t start : γ × Machine} {size align : Nat} {block : Slice} {r : Answer}

theorem step_alloc (h : Tenancy A inv) (hi : inv live s)
    (hd : A.alloc size align s = .ok (r, t)) : inv (after live s (.alloc size align) r) t := by
  cases r with
  | error e => exact h.alloc_refused hi hd
  | ok block => exact h.alloc hi hd

theorem step_free (h : Tenancy A inv) (hi : inv live s) (hheld : Held live block)
    (hd : A.free block s = .ok ((), t)) : inv (after live s (.free block) (.ok .null)) t := by
  cases hn : block.isNull with
  | true =>
    simp only [after, hn, if_true]
    exact h.free_null hi hn hd
  | false =>
    simp only [after, hn, Bool.false_eq_true, if_false]
    rcases hheld with hbad | ⟨lease, hl, rfl⟩
    · rw [hn] at hbad
      cases hbad
    · exact h.free (h.perm ((h.distinct hi).perm_without hl) hi) hd

theorem step_resize (h : Tenancy A inv) (hA : Orderly A) (hi : inv live s)
    (hheld : Held live block) (hd : A.resize block size align s = .ok (r, t)) :
    inv (after live s (.resize block size align) r) t := by
  cases hn : block.isNull with
  | true =>
    rw [hA.resize_null hn] at hd
    have hstep := h.step_alloc hi hd
    cases r with
    | error e => exact hstep
    | ok fresh =>
      simp only [after, hn, if_true]
      exact hstep
  | false =>
    rcases hheld with hbad | ⟨lease, hl, rfl⟩
    · rw [hn] at hbad
      cases hbad
    have hsplit := (h.distinct hi).perm_without hl
    by_cases hs : size = 0
    · subst hs
      obtain ⟨rfl, hfree⟩ := hA.resize_zero_ok hn hd
      simp only [after, hn, Bool.false_eq_true, if_false, if_true]
      exact h.free (h.perm hsplit hi) hfree
    · cases r with
      | error e => exact h.perm hsplit.symm (h.resize_refused (h.perm hsplit hi) hn hs hd)
      | ok fresh =>
        simp only [after, hn, Bool.false_eq_true, if_false, if_neg hs,
          (h.distinct hi).find_eq hl]
        exact h.resize (h.perm hsplit hi) hn hs hd

/-- One deed of a disciplined client. -/
theorem step (h : Tenancy A inv) (hA : Orderly A) (hi : inv live s) {d : Deed}
    (hrule : Disciplined live d) (hd : A.perform d s = .ok (r, t)) : inv (after live s d r) t := by
  cases d with
  | alloc size align => exact h.step_alloc hi hd
  | allocZeroed size align =>
    rcases allocZeroed_ok hd with ⟨e, rfl, ha⟩ | ⟨block, u, rfl, ha, rfl⟩
    · exact h.alloc_refused hi ha
    · exact h.zero (h.alloc hi ha)
  | resize block size align => exact h.step_resize hA hi hrule hd
  | free block =>
    obtain ⟨rfl, hfree⟩ := perform_free_ok hd
    exact h.step_free hi hrule hfree
  | write addr byte =>
    obtain ⟨rfl, rfl⟩ := perform_write_ok hd
    exact h.store hi hrule

/-- What survives every deed and is restored by every sweep holds after every disciplined run. -/
theorem run (h : Tenancy A inv) (hA : Orderly A) {sweeps : List (Act γ Unit)}
    (hsweep : ∀ x ∈ sweeps, ∀ live s t, inv live s → x s = .ok ((), t) → inv [] t)
    (hstart : inv [] start) (hrun : Run A sweeps Disciplined start live s) : inv live s := by
  induction hrun with
  | start => exact hstart
  | deed _ hrule hd ih => exact h.step hA ih hrule hd
  | sweep _ hx hd ih => exact hsweep _ hx _ _ _ ih hd

end Tenancy

/-- The blocks of the leases are outstanding, and each of them fits its request. -/
structure Leased (fit : Nat → Nat → Slice → Prop) (holds : List Slice → γ × Machine → Prop)
    (live : List (Lease γ)) (s : γ × Machine) : Prop where
  held : holds (live.map (·.block)) s
  fits : ∀ lease ∈ live, fit lease.size lease.align lease.block

/-- A ledger that does not look at the machine lists the blocks of a disciplined client, if its
blocks start at different addresses. -/
theorem Ledger.tenancy {A : Allocator γ} {fit : Nat → Nat → Slice → Prop}
    {holds : List Slice → γ × Machine → Prop} (h : Ledger A fit holds) (hA : Orderly A)
    (hoff : ∀ {out g m m'}, holds out (g, m) → holds out (g, m'))
    (hdistinct : ∀ {out s}, holds out s → (out.map (·.addr)).Nodup) :
    Tenancy A (Leased fit holds) where
  perm hp hi := ⟨h.perm (hp.map _) hi.held, fun lease hl => hi.fits lease (hp.mem_iff.2 hl)⟩
  distinct hi := by
    have hnodup := hdistinct hi.held
    rwa [List.map_map] at hnodup
  alloc hi ha := by
    obtain ⟨hfit, hnew⟩ := h.alloc hi.held ha
    exact ⟨hnew, List.forall_mem_cons.2 ⟨hfit, hi.fits⟩⟩
  alloc_refused hi ha := ⟨h.alloc_refused hi.held ha, hi.fits⟩
  zero hi := ⟨hoff hi.held, List.forall_mem_cons.2 (List.forall_mem_cons.1 hi.fits)⟩
  resize hi hn hs hr := by
    obtain ⟨hfit, hnew⟩ := h.resize hi.held hn hs hr
    exact ⟨hnew, List.forall_mem_cons.2 ⟨hfit, (List.forall_mem_cons.1 hi.fits).2⟩⟩
  resize_refused hi hn hs hr := ⟨h.resize_refused hi.held hn hs hr, hi.fits⟩
  free hi hf := ⟨h.free hi.held hf, (List.forall_mem_cons.1 hi.fits).2⟩
  free_null := by
    rintro live ⟨b, m⟩ block ⟨b', m'⟩ hi hn hf
    obtain ⟨rfl, _⟩ := hA.free_null hn hf
    exact ⟨hoff hi.held, hi.fits⟩
  store {live s addr byte} hi _ := by
    refine ⟨?_, fun lease hl => ?_⟩
    · rw [map_store]
      exact hoff hi.held
    · obtain ⟨lease', hl', rfl⟩ := List.mem_map.1 hl
      exact hi.fits lease' hl'

end AllocChain
