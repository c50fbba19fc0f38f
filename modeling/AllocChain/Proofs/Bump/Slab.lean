import AllocChain.Bump.Slab
import AllocChain.Proofs.Bump.Place
import AllocChain.Proofs.Lending

/-!
What the operations of a slab pool do, case by case (`Served`), and where its blocks lie: in the
taken parts of the slabs, apart from each other (`Filled`). A pool meets the interface contract over
an allocator that keeps its blocks apart, whatever these are good for (`SlabPool.lending`).
-/

namespace AllocChain

open Memory

/-- The part of a slab below its offset. -/
def Slab.taken (slab : Slab) : Slice := ⟨slab.mem.addr, slab.offset⟩

/-- A block that is put on top is aligned, and the slab is taken up to its end. -/
theorem Slab.bump_ok {slab slab' : Slab} {size align : Nat} {block : Slice}
    (h : slab.bump size align = .ok (some (block, slab'))) :
    slab'.mem = slab.mem ∧ block.len = size ∧ align ∣ block.addr ∧
      slab.mem.addr + slab.offset ≤ block.addr ∧
      block.addr + size = slab.mem.addr + slab'.offset ∧ slab'.offset ≤ slab.mem.len := by
  simp only [bump] at h
  obtain ⟨found, hplace, h⟩ := Fault.bind_ok.1 h
  cases found with
  | none => cases Fault.pure_ok.1 h
  | some start =>
    obtain ⟨_, hdvd, hlow, hhigh⟩ := place_eq_some hplace
    cases Fault.pure_ok.1 h
    refine ⟨rfl, rfl, hdvd, ?_, ?_, hhigh⟩
    · exact Nat.add_le_add_left hlow _
    · exact Nat.add_assoc _ _ _

namespace SlabPool

/-- The blocks lie in the taken parts of the slabs, apart from each other. -/
structure Filled (slabs : List Slab) (out : List Slice) : Prop where
  within : ∀ slab ∈ slabs, slab.offset ≤ slab.mem.len
  taken : ∀ block ∈ out, 0 < block.len ∧ ∃ slab ∈ slabs, block.Inside slab.taken
  apart : out.Pairwise Slice.Disjoint

namespace Filled

variable {slabs older : List Slab} {slab slab' : Slab} {out out' : List Slice} {old block : Slice}
  {size align : Nat}

theorem taken_inside (h : Filled slabs out) (hs : slab ∈ slabs) : slab.taken.Inside slab.mem :=
  ⟨Nat.le_refl _, Nat.add_le_add_left (h.within slab hs) _⟩

theorem inside (h : Filled slabs out) (hb : block ∈ out) :
    ∃ mem ∈ slabs.map (·.mem), block.Inside mem := by
  obtain ⟨_, slab, hs, hin⟩ := h.taken block hb
  exact ⟨slab.mem, List.mem_map_of_mem hs, hin.trans (h.taken_inside hs)⟩

theorem perm (h : Filled slabs out) (hp : out.Perm out') : Filled slabs out' where
  within := h.within
  taken block hb := h.taken block (hp.mem_iff.2 hb)
  apart := (hp.pairwise_iff fun hd => hd.symm).1 h.apart

theorem put (h : Filled slabs out) (mem : Slice) : Filled (⟨mem, 0⟩ :: slabs) out where
  within := List.forall_mem_cons.2 ⟨Nat.zero_le _, h.within⟩
  taken block hb := by
    obtain ⟨hpos, slab, hs, hin⟩ := h.taken block hb
    exact ⟨hpos, slab, List.mem_cons_of_mem _ hs, hin⟩
  apart := h.apart

/-- A block on top of the newest slab lies above what is taken of it, and apart from all others. -/
theorem push (h : Filled (slab :: older) out)
    (hd : ((slab :: older).map (·.mem)).Pairwise Slice.Disjoint) (hs : 0 < size)
    (hb : slab.bump size align = .ok (some (block, slab'))) :
    Filled (slab' :: older) (block :: out) := by
  obtain ⟨hmem, hlen, _, hlow, hend, hwithin⟩ := Slab.bump_ok hb
  obtain ⟨hfirst, hrest⟩ := List.forall_mem_cons.1 h.within
  have hgrow : slab.taken.Inside slab'.taken := by
    unfold Slab.taken Slice.Inside
    rw [hmem]
    simp only
    omega
  have hin : block.Inside slab'.taken := by
    unfold Slab.taken Slice.Inside
    rw [hmem, hlen]
    simp only
    omega
  refine ⟨List.forall_mem_cons.2 ⟨hmem ▸ hwithin, hrest⟩, ?_, ?_⟩
  · refine List.forall_mem_cons.2 ⟨⟨hlen ▸ hs, slab', List.mem_cons_self, hin⟩, ?_⟩
    intro other ho
    obtain ⟨hpos, home, hhome, hother⟩ := h.taken other ho
    rcases List.mem_cons.1 hhome with rfl | hold
    · exact ⟨hpos, slab', List.mem_cons_self, hother.trans hgrow⟩
    · exact ⟨hpos, home, List.mem_cons_of_mem _ hold, hother⟩
  · refine List.pairwise_cons.2 ⟨?_, h.apart⟩
    intro other ho
    obtain ⟨_, home, hhome, hother⟩ := h.taken other ho
    rcases List.mem_cons.1 hhome with rfl | hold
    · refine Slice.disjoint_of_le (.inr ?_)
      have htop : other.addr + other.len ≤ home.mem.addr + home.offset := hother.2
      exact Nat.le_trans htop hlow
    · have hapart := (List.pairwise_cons.1 hd).1 home.mem (List.mem_map_of_mem hold)
      have hin' : block.Inside slab.mem := by
        simp only [Slice.Inside]
        rw [hlen]
        omega
      exact hapart.mono hin' (hother.trans (h.taken_inside (List.mem_cons_of_mem _ hold)))

theorem shrink (h : Filled slabs (old :: out)) (hs : 0 < size) (hle : size ≤ old.len) :
    Filled slabs (⟨old.addr, size⟩ :: out) := by
  have hin : Slice.Inside ⟨old.addr, size⟩ old := ⟨Nat.le_refl _, Nat.add_le_add_left hle _⟩
  obtain ⟨⟨_, slab, hslab, hold⟩, hothers⟩ := List.forall_mem_cons.1 h.taken
  obtain ⟨hfirst, hrest⟩ := List.pairwise_cons.1 h.apart
  refine ⟨h.within, List.forall_mem_cons.2 ⟨⟨hs, slab, hslab, hin.trans hold⟩, hothers⟩, ?_⟩
  exact List.pairwise_cons.2 ⟨fun other ho => (hfirst other ho).mono hin (.refl _), hrest⟩

theorem forget (h : Filled slabs (old :: out)) : Filled slabs out :=
  ⟨h.within, (List.forall_mem_cons.1 h.taken).2, (List.pairwise_cons.1 h.apart).2⟩

end Filled

/-! ### What the operations do -/

variable {β : Type} {B : Allocator β} {s t : (SlabPool × β) × Machine} {mem : Slice}
  {size align : Nat} {r : Answer}

/-- What becomes of a request: it is served from the newest slab, refused behind, or a new slab is
acquired for it; that goes back if it has no room. -/
inductive Served (B : Allocator β) (size align : Nat) (s : (SlabPool × β) × Machine) :
    Answer → (SlabPool × β) × Machine → Prop
  | newest {slab older block slab' es} : s.1.1.slabs = slab :: older →
      slab.bump size align = .ok (some (block, slab')) →
      Served B size align s (.ok block)
        (({ s.1.1 with slabs := slab' :: older }, s.1.2), s.2.report es)
  | refused {e u} :
      B.alloc (max size s.1.1.slabSize) (max align leastSlabAlign) (s.1.2, s.2) =
        .ok (.error e, u) →
      Served B size align s (.error e) ((s.1.1, u.1), u.2)
  | unusable {mem u es e v} :
      B.alloc (max size s.1.1.slabSize) (max align leastSlabAlign) (s.1.2, s.2) =
        .ok (.ok mem, u) →
      (Slab.mk mem 0).bump size align = .ok none →
      B.free mem (u.1, u.2.report es) = .ok ((), v) →
      Served B size align s (.error e) ((s.1.1, v.1), v.2)
  | fresh {mem u block slab es} :
      B.alloc (max size s.1.1.slabSize) (max align leastSlabAlign) (s.1.2, s.2) =
        .ok (.ok mem, u) →
      (Slab.mk mem 0).bump size align = .ok (some (block, slab)) →
      Served B size align s (.ok block)
        (({ s.1.1 with slabs := slab :: s.1.1.slabs }, u.1), u.2.report es)

theorem bumpNewest_ok {p p' : SlabPool} {block : Slice}
    (h : p.bumpNewest size align = .ok (some (block, p'))) :
    ∃ slab older slab', p.slabs = slab :: older ∧
      slab.bump size align = .ok (some (block, slab')) ∧
      p' = { p with slabs := slab' :: older } := by
  simp only [bumpNewest] at h
  cases hp : p.slabs with
  | nil => simp only [hp, Fault.pure_ok, reduceCtorEq] at h
  | cons slab older =>
    simp only [hp] at h
    obtain ⟨found, hbump, h⟩ := Fault.bind_ok.1 h
    cases found with
    | none => cases Fault.pure_ok.1 h
    | some found =>
      cases Fault.pure_ok.1 h
      exact ⟨slab, older, found.2, rfl, hbump, rfl⟩

theorem serve_ok (h : serve B size align s = .ok (r, t)) : Served B size align s r t := by
  simp only [serve, Act.bind_ok, Act.own_ok, Act.lift_ok] at h
  obtain ⟨_, _, ⟨rfl, rfl⟩, found, _, ⟨hbump, rfl⟩, h⟩ := h
  match found, h with
  | some (block, p), h =>
    obtain ⟨slab, older, slab', hp, hbump', rfl⟩ := bumpNewest_ok hbump
    simp only [Act.bind_ok, Act.setOwn_ok, Act.emit_ok, Act.pure_ok] at h
    obtain ⟨_, _, rfl, _, _, rfl, rfl, rfl⟩ := h
    exact .newest hp hbump'
  | none, h =>
    obtain ⟨answer, _, hcall, h⟩ := Act.bind_ok.1 h
    obtain ⟨u, halloc, rfl⟩ := Act.below_ok.1 hcall
    cases answer with
    | error e =>
      obtain ⟨rfl, rfl⟩ := Act.pure_ok.1 h
      exact .refused halloc
    | ok storage =>
      simp only [Act.bind_ok, Act.emit_ok, Act.lift_ok] at h
      obtain ⟨_, _, rfl, placed, _, ⟨hplaced, rfl⟩, h⟩ := h
      match placed, h with
      | none, h =>
        simp only [Act.bind_ok, Act.below_ok, Act.pure_ok] at h
        obtain ⟨_, _, ⟨v, hfree, rfl⟩, rfl, rfl⟩ := h
        exact .unusable halloc hplaced hfree
      | some (block, slab), h =>
        simp only [Act.bind_ok, Act.setOwn_ok, Act.emit_ok, Act.pure_ok] at h
        obtain ⟨_, _, rfl, _, _, rfl, rfl, rfl⟩ := h
        rw [Machine.report_report]
        exact .fresh halloc hplaced

theorem free_ok (h : free mem s = .ok ((), t)) : ∃ es, t = (s.1, s.2.report es) :=
  ⟨_, Act.emit_ok.1 h⟩

theorem adjust_ok (h : adjust B mem size align s = .ok (r, t)) :
    (size ≤ mem.len ∧ align ∣ mem.addr ∧ r = .ok ⟨mem.addr, size⟩ ∧ t = s) ∨
      relocate (alloc B) free mem size align s = .ok (r, t) := by
  simp only [adjust] at h
  by_cases hstay : size ≤ mem.len ∧ mem.addr % align = 0
  · rw [if_pos hstay] at h
    obtain ⟨rfl, rfl⟩ := Act.pure_ok.1 h
    exact .inl ⟨hstay.1, Nat.dvd_of_mod_eq_zero hstay.2, rfl, rfl⟩
  · rw [if_neg hstay] at h
    exact .inr h

theorem orderly (B : Allocator β) : Orderly (allocator B) where
  alloc_zero {align s r t} h := by
    change allocBy (serve B) 0 align s = .ok (r, t) at h
    exact allocBy_zero h
  resize_null hn := resizeBy_null hn
  resize_zero {block align} hn := by
    change resizeBy (alloc B) free (adjust B) block 0 align = _
    exact resizeBy_zero hn
  free_null {block s t} _ hf := by
    obtain ⟨es, rfl⟩ := free_ok hf
    exact ⟨rfl, rfl⟩

theorem destroy_ok {fit : Nat → Nat → Slice → Prop} {holds : List Slice → β × Machine → Prop}
    (hB : Ledger B fit holds) (h : destroy B s = .ok ((), t))
    (hh : holds (s.1.1.slabs.map (·.mem)) (s.1.2, s.2)) :
    t.1.1 = { s.1.1 with slabs := [] } ∧ holds [] (t.1.2, t.2) := by
  simp only [destroy, Act.bind_ok, Act.own_ok, Act.setOwn_ok] at h
  obtain ⟨_, _, ⟨rfl, rfl⟩, _, _, rfl, h⟩ := h
  have holdest : (s.1.1.slabs.map (·.mem)).Perm (s.1.1.slabs.reverse.map (·.mem) ++ []) := by
    rw [List.append_nil]
    exact ((List.reverse_perm _).map _).symm
  have hback := hB.perm holdest hh
  by_cases hany : s.1.1.slabs ≠ []
  · rw [if_pos hany] at h
    simp only [Act.bind_ok, Act.emit_ok, Act.below_ok] at h
    obtain ⟨_, _, rfl, u, hfree, rfl⟩ := h
    exact ⟨rfl, hB.freeAll hfree (hB.report hback)⟩
  · rw [if_neg hany] at h
    obtain ⟨u, hfree, rfl⟩ := Act.below_ok.1 h
    exact ⟨rfl, hB.freeAll hfree hback⟩

/-! ### The blocks of a pool -/

/-- The pool holds its slabs, none of which is null, and the blocks lie in them. -/
structure Kept (holds : List Slice → β × Machine → Prop) (out : List Slice)
    (s : (SlabPool × β) × Machine) : Prop where
  backed : NonNull holds (s.1.1.slabs.map (·.mem)) (s.1.2, s.2)
  filled : Filled s.1.1.slabs out

namespace Kept

variable {holds : List Slice → β × Machine → Prop} {out : List Slice} {old block : Slice}

theorem agreesOn (h : Kept holds out s) {m : Memory}
    (ha : AgreesOn (s.1.1.slabs.map (·.mem)) s.2.memory m) : AgreesOn out s.2.memory m :=
  ha.inside fun _ hb => h.filled.inside hb

theorem nonnull (h : Kept holds out s) (hb : block ∈ out) : block.addr ≠ 0 := by
  obtain ⟨mem, hmem, hin⟩ := h.filled.inside hb
  have hlow : mem.addr ≤ block.addr := hin.1
  have hne := h.backed.2 mem hmem
  omega

/-- A request puts a block on top of the newest slab. -/
theorem alloc (hB : Keeper B holds) (h : Kept holds out s)
    (ha : SlabPool.alloc B size align s = .ok (.ok block, t)) :
    block.Meets size align ∧ Kept holds (block :: out) t ∧
      AgreesOn out s.2.memory t.2.memory := by
  have hN := hB.nonNull
  rcases allocBy_ok ha with ⟨_, hbad, _⟩ | ⟨hs, _, hserve⟩
  · cases hbad
  cases serve_ok hserve with
  | @newest slab older _ slab' es hp hbump =>
    obtain ⟨hmem, hlen, hdvd, _⟩ := Slab.bump_ok hbump
    have hback := h.backed
    have hfilled := h.filled
    rw [hp] at hback hfilled
    have hnew : NonNull holds ((slab' :: older).map (·.mem)) (s.1.2, s.2.report es) := by
      rw [List.map_cons, hmem]
      exact hN.supply.report hback
    exact ⟨⟨Nat.le_of_eq hlen.symm, hdvd⟩,
      ⟨hnew, hfilled.push (hN.supply.apart hback) hs hbump⟩, .refl _ _⟩
  | @fresh mem u _ slab es hcall hbump =>
    obtain ⟨hmem, hlen, hdvd, _⟩ := Slab.bump_ok hbump
    obtain ⟨_, hback⟩ := hN.supply.alloc h.backed hcall
    have hnew : NonNull holds ((slab :: s.1.1.slabs).map (·.mem)) (u.1, u.2.report es) := by
      rw [List.map_cons, hmem]
      exact hN.supply.report hback
    exact ⟨⟨Nat.le_of_eq hlen.symm, hdvd⟩,
      ⟨hnew, (h.filled.put mem).push (hN.supply.apart hback) hs hbump⟩,
      h.agreesOn (hN.custody.alloc h.backed hcall)⟩

/-- A refused request may have tried a slab, which is gone again. -/
theorem alloc_refused (hB : Keeper B holds) (h : Kept holds out s) {e : AllocError}
    (ha : SlabPool.alloc B size align s = .ok (.error e, t)) :
    Kept holds out t ∧ AgreesOn out s.2.memory t.2.memory := by
  have hN := hB.nonNull
  rcases allocBy_ok ha with ⟨_, _, rfl⟩ | ⟨_, _, hserve⟩
  · exact ⟨h, .refl _ _⟩
  cases serve_ok hserve with
  | refused hcall =>
    exact ⟨⟨hN.supply.alloc_refused h.backed hcall, h.filled⟩,
      h.agreesOn (hN.custody.alloc h.backed hcall)⟩
  | @unusable mem u es _ v hcall _ hfree =>
    have hback : NonNull holds (mem :: s.1.1.slabs.map (·.mem)) (u.1, u.2.report es) :=
      hN.supply.report (hN.supply.alloc h.backed hcall).2
    have hfreed := hN.custody.free hback hfree
    exact ⟨⟨hN.supply.free hback hfree, h.filled⟩,
      h.agreesOn ((hN.custody.alloc h.backed hcall).trans hfreed)⟩

end Kept

variable {holds : List Slice → β × Machine → Prop}

/-- A slab pool over an allocator that keeps blocks apart moves what does not shrink. -/
theorem lending (hB : Keeper B holds) : Lending (allocator B) (adjust B) (Kept holds) where
  resize_eq := rfl
  perm hp hh := ⟨hh.backed, hh.filled.perm hp⟩
  write hh hw := ⟨hB.nonNull.supply.write hh.backed (hw.inside fun _ hb => hh.filled.inside hb),
    hh.filled⟩
  apart hh := hh.filled.apart
  bounded hh block hb := by
    obtain ⟨mem, hmem, hin⟩ := hh.filled.inside hb
    exact Nat.lt_of_le_of_lt hin.2 (hB.nonNull.supply.bounded hh.backed mem hmem)
  nonnull hh _ hb := hh.nonnull hb
  alloc hh ha := hh.alloc hB ha
  alloc_refused hh ha := hh.alloc_refused hB ha
  free {out s block t} hh hf := by
    obtain ⟨es, rfl⟩ := free_ok hf
    exact ⟨⟨hB.nonNull.supply.report hh.backed, hh.filled.forget⟩, .refl _ _⟩
  adjust := by
    rintro out s old size align r t hh hs ⟨k, rfl⟩ ha
    rcases adjust_ok ha with ⟨hle, hdvd, rfl, rfl⟩ | hreloc
    · refine .inl ⟨⟨Nat.le_refl _, ?_⟩, ⟨hh.backed, hh.filled.shrink hs hle⟩, .refl _ _, ?_⟩
      · rwa [normalizeAlign_two_pow]
      · exact fun i _ _ => rfl
    · exact .inr hreloc

theorem Kept.new {b : β} {m : Machine} (slabSize : Nat) (h : holds [] (b, m)) :
    Kept holds [] ((SlabPool.new slabSize, b), m) :=
  ⟨⟨h, by simp [SlabPool.new]⟩, by simp [SlabPool.new], by simp, .nil⟩

theorem Kept.destroy {out : List Slice} (hB : Keeper B holds) (h : Kept holds out s)
    (hd : SlabPool.destroy B s = .ok ((), t)) : Kept holds [] t := by
  obtain ⟨hown, hback⟩ := destroy_ok hB.nonNull.supply.toLedger hd h.backed
  refine ⟨?_, ?_⟩
  · rw [hown]
    exact hback
  · rw [hown]
    exact ⟨by simp, by simp, .nil⟩

end SlabPool
end AllocChain
