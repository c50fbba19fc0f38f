import AllocChain.Proofs.Bump.Fixed
import AllocChain.Proofs.Classes.Tenant
import AllocChain.Proofs.Lease

/-!
What the blocks of a general-purpose allocator look like in every state that a client can reach
that resizes and frees whatever slices it likes (`Partitioned`). The blocks lie apart and answer
their requests; each lies in one place, a taken slot or a large block, and each place has one block.
-/

namespace AllocChain

open Lease

variable {β γ : Type}

/-- The blocks of a client are partitioned over the taken slots and the large blocks. -/
structure Partitioned (g : GeneralPurpose) (live : List (Lease γ)) : Prop where
  apart : live.Pairwise fun l l' => l.block.Disjoint l'.block
  answers : ∀ lease ∈ live, 0 < lease.block.len ∧ lease.block.Meets lease.size lease.align
  home : ∀ lease ∈ live, ∃! o, ∃ span, g.Spans o span ∧ lease.block.Inside span
  tenant : ∀ o span, g.Spans o span → ∃! lease, lease ∈ live ∧ lease.block.Inside span
  slot_size : ∀ c i k span, g.Spans (.slot c i k) span → span.len = 2 ^ c

namespace GeneralPurpose

variable {B : Allocator β} {holds : List Slice → β × Machine → Prop}
  {live : List (Lease (GeneralPurpose × β))} {s t : (GeneralPurpose × β) × Machine} {mem : Slice}
  {size align : Nat} {r : Answer}

/-- The blocks of the leases are kept, and each answers its request. -/
structure Lodged (holds : List Slice → β × Machine → Prop)
    (live : List (Lease (GeneralPurpose × β))) (s : (GeneralPurpose × β) × Machine) : Prop where
  kept : Kept holds (live.map (·.block)) s
  answers : ∀ lease ∈ live, lease.block.Meets lease.size lease.align

namespace Lodged

theorem distinct (hB : Supply B Slice.Meets holds) (h : Lodged holds live s) : Distinct live := by
  have hd := h.kept.fills.addrs.nodup_iff.2 ((h.kept.spread hB).addrs_nodup h.kept.sound)
  rwa [List.map_map] at hd

theorem answers_without (h : Lodged holds live s) (addr : Nat) :
    ∀ lease ∈ without live addr, lease.block.Meets lease.size lease.align :=
  fun lease hl => h.answers lease (mem_without.1 hl).1

theorem alloc (hB : Supply B Slice.Meets holds) (h : Lodged holds live s)
    (ha : (allocator B).alloc size align s = .ok (r, t)) :
    Lodged holds (after live s (.alloc size align) r) t := by
  rcases h.kept.alloc hB ha with ⟨e, rfl, hk⟩ | ⟨block, rfl, _, hmeets, hk⟩
  · exact ⟨hk, h.answers⟩
  · exact ⟨hk, List.forall_mem_cons.2 ⟨hmeets, h.answers⟩⟩

/-- Whatever is freed, the leases that start at its address are gone, unless it is null. -/
theorem free (hB : Supply B Slice.Meets holds) (h : Lodged holds live s)
    (hf : (allocator B).free mem s = .ok ((), t)) :
    Lodged holds (after live s (.free mem) (.ok .null)) t := by
  rcases h.kept.free hB hf with ⟨hn, rfl⟩ | ⟨hn, hcase⟩
  · simp only [after, hn, if_true]
    exact h
  simp only [after, hn, Bool.false_eq_true, if_false]
  rcases hcase with ⟨hk, hnone⟩ | ⟨block, rest, hp, haddr, hk⟩
  · rw [without_eq_self fun lease hl => hnone lease.block (List.mem_map_of_mem hl)]
    exact ⟨hk, h.answers⟩
  · obtain ⟨lease, _, _, hrest⟩ := (h.distinct hB).without_perm hp
    rw [← haddr]
    exact ⟨hk.perm hrest.symm, h.answers_without _⟩

/-- Whatever is resized, it is refused or replaces the lease that starts at its address. -/
theorem resize (hB : Supply B Slice.Meets holds) (h : Lodged holds live s)
    (hr : (allocator B).resize mem size align s = .ok (r, t)) :
    Lodged holds (after live s (.resize mem size align) r) t := by
  cases hn : mem.isNull with
  | true =>
    rw [(orderly B).resize_null hn] at hr
    have hstep := h.alloc hB hr
    cases r with
    | error e => exact hstep
    | ok block =>
      simp only [after, hn, if_true]
      exact hstep
  | false =>
    by_cases hs : size = 0
    · subst hs
      obtain ⟨rfl, hfree⟩ := (orderly B).resize_zero_ok hn hr
      have hstep := h.free hB hfree
      simp only [after, hn, Bool.false_eq_true, if_false, if_true] at hstep ⊢
      exact hstep
    · rcases h.kept.resize hB hn hs hr with ⟨e, rfl, hk⟩ |
        ⟨block, old, rest, rfl, hp, haddr, hmeets, hk⟩
      · exact ⟨hk, h.answers⟩
      · obtain ⟨lease, hl, rfl, hrest⟩ := (h.distinct hB).without_perm hp
        simp only [after, hn, Bool.false_eq_true, if_false, if_neg hs, ← haddr,
          (h.distinct hB).find_eq hl]
        refine ⟨hk.perm (hrest.symm.cons block), ?_⟩
        exact List.forall_mem_cons.2 ⟨hmeets, h.answers_without _⟩

theorem write (hB : Supply B Slice.Meets holds) (h : Lodged holds live s) {m : Machine}
    (hw : Memory.WrittenIn (live.map (·.block)) s.2.memory m.memory) : Lodged holds live (s.1, m) :=
  ⟨h.kept.write hB hw, h.answers⟩

theorem step (hB : Supply B Slice.Meets holds) (h : Lodged holds live s) {d : Deed}
    (hrule : Confined live d) (hd : (allocator B).perform d s = .ok (r, t)) :
    Lodged holds (after live s d r) t := by
  cases d with
  | alloc size align => exact h.alloc hB hd
  | allocZeroed size align =>
    rcases allocZeroed_ok hd with ⟨e, rfl, ha⟩ | ⟨block, u, rfl, ha, rfl⟩
    · exact h.alloc hB ha
    · have hnew := h.alloc hB ha
      have hfill : Memory.WrittenIn [block] u.2.memory
          (u.2.memory.write block.addr block.len fun _ => 0) := Memory.writtenIn_write _ _ _ _
      have hfilled := hnew.write hB (m := u.2.mapMemory (·.write block.addr block.len fun _ => 0))
        (hfill.mem List.mem_cons_self)
      exact ⟨hfilled.kept, List.forall_mem_cons.2 (List.forall_mem_cons.1 hfilled.answers)⟩
  | resize mem size align => exact h.resize hB hd
  | free mem =>
    obtain ⟨rfl, hfree⟩ := perform_free_ok hd
    exact h.free hB hfree
  | write addr byte =>
    obtain ⟨rfl, rfl⟩ := perform_write_ok hd
    have hstored := h.write hB (m := s.2.mapMemory (·.write addr 1 fun _ => byte))
      (hrule.writtenIn s.2.memory fun _ => byte)
    refine ⟨?_, ?_⟩
    · simp only [after]
      rw [map_store]
      exact hstored.kept
    · intro lease hl
      obtain ⟨lease', hl', rfl⟩ := List.mem_map.1 hl
      exact h.answers lease' hl'

/-- Lodged blocks are partitioned over the places. -/
theorem partitioned (hB : Supply B Slice.Meets holds) (h : Lodged holds live s) :
    Partitioned s.1.1 live := by
  have hspread := h.kept.spread hB
  have hfills := h.kept.fills
  have hstarts : ∀ lease ∈ live, ∃ o span, s.1.1.Spans o span ∧ lease.block.Starts span := by
    intro lease hl
    obtain ⟨span, hspan, hst⟩ := hfills.starts lease.block (List.mem_map_of_mem hl)
    obtain ⟨o, ho⟩ := mem_places.1 hspan
    exact ⟨o, span, ho, hst⟩
  refine ⟨?_, ?_, ?_, ?_, ?_⟩
  · exact List.pairwise_map.1 (h.kept.apart hB)
  · intro lease hl
    obtain ⟨_, _, _, hst⟩ := hstarts lease hl
    exact ⟨hst.pos, h.answers lease hl⟩
  · intro lease hl
    obtain ⟨o, span, ho, hst⟩ := hstarts lease hl
    refine ⟨o, ⟨span, ho, hst.inside⟩, ?_⟩
    rintro o' ⟨span', ho', hin⟩
    have hhas := Slice.has_addr hst.pos
    exact ho'.eq_of_has hspread ho (hin.has hhas) (hst.inside.has hhas)
  · intro o span ho
    have haddr : span.addr ∈ (live.map (·.block)).map (·.addr) :=
      hfills.addrs.mem_iff.2 (List.mem_map_of_mem (mem_places.2 ⟨o, ho⟩))
    rw [List.map_map] at haddr
    obtain ⟨lease, hl, heq⟩ := List.mem_map.1 haddr
    -- whoever lies in the place starts where it starts
    have hsame : ∀ {lease'}, lease' ∈ live → lease'.block.Inside span →
        lease'.block.addr = span.addr := by
      intro lease' hl' hin
      obtain ⟨o', span', ho', hst⟩ := hstarts lease' hl'
      have hhas := Slice.has_addr hst.pos
      obtain rfl := ho'.eq_of_has hspread ho (hst.inside.has hhas) (hin.has hhas)
      rw [hst.addr, ho'.unique ho]
    refine ⟨lease, ⟨hl, ?_⟩, ?_⟩
    · obtain ⟨o', span', ho', hst⟩ := hstarts lease hl
      have hpos := hspread.pos h.kept.sound (mem_places.2 ⟨o, ho⟩)
      have hhas := hst.inside.has (Slice.has_addr hst.pos)
      have hhas' := Slice.has_addr hpos
      rw [← heq] at hhas'
      obtain rfl := ho'.eq_of_has hspread ho hhas hhas'
      rw [ho.unique ho']
      exact hst.inside
    · rintro lease' ⟨hl', hin⟩
      exact (h.distinct hB).eq_of_addr hl' hl ((hsame hl' hin).trans heq.symm)
  · exact fun c i k span ho => ho.slot_size h.kept.sound

end Lodged

theorem Lodged.new {b : β} {m : Machine} (bucketSize : Nat) (h : holds [] (b, m)) :
    Lodged holds [] ((GeneralPurpose.new bucketSize, b), m) :=
  ⟨.new bucketSize h, by simp⟩

end GeneralPurpose

/-- However a client resizes and frees, over any supply of disjoint blocks that meet their requests:
its blocks are partitioned over the taken slots and the large blocks. -/
theorem partitioned_of_confined {B : Allocator β} {holds : List Slice → β × Machine → Prop}
    {bucketSize : Nat} {b : β} {m : Machine} {live : List (Lease (GeneralPurpose × β))}
    {s : (GeneralPurpose × β) × Machine} (hB : Supply B Slice.Meets holds)
    (hstart : holds [] (b, m))
    (hrun : Run (GeneralPurpose.allocator B) [] Confined ((GeneralPurpose.new bucketSize, b), m)
      live s) : Partitioned s.1.1 live := by
  have hlodged : GeneralPurpose.Lodged holds live s := by
    induction hrun with
    | start => exact .new bucketSize hstart
    | deed _ hrule hd ih => exact ih.step hB hrule hd
    | sweep _ hx _ _ => cases hx
  exact hlodged.partitioned hB

/-- A client that frees inside a block, and frees and resizes with wrong lengths. -/
theorem partitioned_of_stray_frees :
    ∃ live s, Run (GeneralPurpose.allocator Fixed.allocator) [] Confined
        ((GeneralPurpose.new 64, ⟨64, 1024, 0⟩), ⟨.zero, [], []⟩) live s ∧
      live.map (·.block) = [⟨96, 9⟩, ⟨160, 200⟩] ∧ Partitioned s.1.1 live := by
  have hlast : ((GeneralPurpose.allocator Fixed.allocator).play Confined
      [.alloc 10 8, .alloc 100 16, .free ⟨81, 7⟩, .alloc 12 4, .free ⟨80, 99⟩,
        .resize ⟨160, 1⟩ 200 16, .resize ⟨96, 500⟩ 9 8] []
      ((GeneralPurpose.new 64, ⟨64, 1024, 0⟩), ⟨.zero, [], []⟩)).map (·.1.map (·.block)) =
        some [⟨96, 9⟩, ⟨160, 200⟩] := by
    decide +kernel
  obtain ⟨⟨live, s⟩, hplay, hlive⟩ := Option.map_eq_some_iff.1 hlast
  have hrun : Run (GeneralPurpose.allocator Fixed.allocator) [] Confined _ live s :=
    Run.start.play hplay
  have hsupply : Supply Fixed.allocator Slice.Meets (Stacking.Holds Fixed.Kept) :=
    Fixed.stacking.contract.supply.mono fun _ _ _ h => h.1
  exact ⟨live, s, hrun, hlive,
    partitioned_of_confined hsupply (Fixed.holds_nil (by decide)) hrun⟩

end AllocChain
