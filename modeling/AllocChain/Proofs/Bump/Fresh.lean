import AllocChain.Proofs.Bump.Fixed
import AllocChain.Proofs.Bump.Nested
import AllocChain.Proofs.Bump.Slab
import AllocChain.Proofs.Lease
import AllocChain.Proofs.Trace

/-!
A slab pool never hands out an address twice. What counts here is all that was ever handed out, not
what is still in use: `History` keeps every fresh region until the slabs go back, whatever has been
freed, shrunk or outgrown since. The regions fill the taken parts of the slabs (`Filled`), over any
allocator whose outstanding blocks lie apart, be they longer, shorter or less aligned than asked.
-/

namespace AllocChain.SlabPool

open Memory

variable {β : Type}

/-- What a client has had of a pool since the slabs last went back: the regions that were handed out
to it afresh, the newest first, and the slices that it last got for its blocks. -/
structure History where
  handed : List Grant
  latest : List Slice
  deriving DecidableEq, Repr

namespace History

/-- A fresh region; `rest` are the slices of the other blocks. -/
def grant (h : History) (size align : Nat) (block : Slice) (rest : List Slice) : History :=
  ⟨⟨size, align, block⟩ :: h.handed, block :: rest⟩

/-- The history after a deed. A block that is freed, or resized to nothing, stays in it; a resize
that does not move its block hands out nothing fresh. -/
def after (h : History) : Deed → Answer → History
  | _, .error _ => h
  | .alloc size align, .ok block => h.grant size align block h.latest
  | .allocZeroed size align, .ok block => h.grant size align block h.latest
  | .resize old size align, .ok block =>
    if old.isNull then h.grant size align block h.latest
    else if size = 0 then h
    else if block.addr = old.addr then { h with latest := block :: h.latest.erase old }
    else h.grant size align block (h.latest.erase old)
  | .free _, .ok _ => h
  | .write _ _, .ok _ => h

/-- Resizes null and what was last got for a block, frees anything, and writes into the regions that
were handed out. -/
def Allows (h : History) : Deed → Prop
  | .resize block _ _ => block.isNull = true ∨ block ∈ h.latest
  | .write addr _ => ∃ g ∈ h.handed, g.block.Has addr
  | _ => True

instance (h : History) : (d : Deed) → Decidable (h.Allows d)
  | .alloc .. | .allocZeroed .. | .free _ => isTrue trivial
  | .resize block _ _ => inferInstanceAs (Decidable (block.isNull = true ∨ block ∈ h.latest))
  | .write addr _ => inferInstanceAs (Decidable (∃ g ∈ h.handed, g.block.Has addr))

end History

/-- The histories and states that a client of a pool can reach; when the slabs go back a new history
begins. -/
inductive Use (B : Allocator β) (start : (SlabPool × β) × Machine) :
    History → (SlabPool × β) × Machine → Prop
  | start : Use B start ⟨[], []⟩ start
  | deed {h s d r t} : Use B start h s → h.Allows d → (allocator B).perform d s = .ok (r, t) →
      Use B start (h.after d r) t
  | destroy {h s t} : Use B start h s → destroy B s = .ok ((), t) → Use B start ⟨[], []⟩ t

/-- Does deeds one after the other, as long as the history allows them and they end without a
fault. -/
def use (B : Allocator β) : List Deed → History → (SlabPool × β) × Machine →
    Option (History × (SlabPool × β) × Machine)
  | [], h, s => some (h, s)
  | d :: ds, h, s =>
    if h.Allows d then
      match (allocator B).perform d s with
      | .ok (r, t) => use B ds (h.after d r) t
      | .error _ => none
    else none

theorem Use.use {B : Allocator β} {start s s' : (SlabPool × β) × Machine} {h h' : History}
    {ds : List Deed} (hu : Use B start h s) (hp : SlabPool.use B ds h s = some (h', s')) :
    Use B start h' s' := by
  induction ds generalizing h s with
  | nil =>
    cases hp
    exact hu
  | cons d ds ih =>
    rw [SlabPool.use] at hp
    by_cases hallows : h.Allows d
    · rw [if_pos hallows] at hp
      cases hd : (allocator B).perform d s with
      | error e => simp [hd] at hp
      | ok r =>
        simp only [hd] at hp
        exact ih (hu.deed hallows hd) hp
    · rw [if_neg hallows] at hp
      cases hp

/-! ### The invariant -/

/-- The pool holds its slabs, the regions lie in their taken parts and answer the requests, and what
the client last got for a block lies in one of the regions. -/
structure Told (holds : List Slice → β × Machine → Prop) (h : History)
    (s : (SlabPool × β) × Machine) : Prop where
  backed : holds (s.1.1.slabs.map (·.mem)) (s.1.2, s.2)
  filled : Filled s.1.1.slabs (h.handed.map (·.block))
  answers : ∀ g ∈ h.handed, g.block.len = g.size ∧ normalizeAlign g.align ∣ g.block.addr
  latest : ∀ block ∈ h.latest, 0 < block.len ∧ ∃ g ∈ h.handed, block.Inside g.block

namespace Told

variable {B : Allocator β} {fit : Nat → Nat → Slice → Prop}
  {holds : List Slice → β × Machine → Prop} {h : History} {s t : (SlabPool × β) × Machine}
  {size align align' : Nat} {block old : Slice} {rest : List Slice} {r : Answer}

theorem new {b : β} {m : Machine} {p : SlabPool} (hp : p.slabs = []) (hback : holds [] (b, m)) :
    Told holds ⟨[], []⟩ ((p, b), m) := by
  refine ⟨?_, ⟨?_, by simp, .nil⟩, by simp, by simp⟩
  · rwa [hp]
  · simp [hp]

theorem writes (hB : Supply B fit holds) (ht : Told holds h s) {f : Memory → Memory}
    (hw : WrittenIn (h.handed.map (·.block)) s.2.memory (f s.2.memory)) :
    Told holds h (s.1, s.2.mapMemory f) :=
  { ht with backed := hB.write ht.backed (hw.inside fun _ hb => ht.filled.inside hb) }

theorem push {slab slab' : Slab} {older : List Slab} {p : SlabPool} {u : β × Machine}
    (hB : Supply B fit holds) (hback : holds ((slab :: older).map (·.mem)) u)
    (hfilled : Filled (slab :: older) (h.handed.map (·.block)))
    (hans : ∀ g ∈ h.handed, g.block.len = g.size ∧ normalizeAlign g.align ∣ g.block.addr)
    (hrest : ∀ block ∈ rest, 0 < block.len ∧ ∃ g ∈ h.handed, block.Inside g.block)
    (hs : 0 < size) (hbump : slab.bump size (normalizeAlign align) = .ok (some (block, slab')))
    (es : List Event) :
    Told holds (h.grant size align block rest)
      (({ p with slabs := slab' :: older }, u.1), u.2.report es) := by
  obtain ⟨hmem, hlen, hdvd, _⟩ := Slab.bump_ok hbump
  refine ⟨?_, hfilled.push (hB.apart hback) hs hbump, ?_, ?_⟩
  · rw [List.map_cons, hmem]
    exact hB.report hback
  · exact List.forall_mem_cons.2 ⟨⟨hlen, hdvd⟩, hans⟩
  · refine List.forall_mem_cons.2 ⟨⟨hlen ▸ hs, _, List.mem_cons_self, .refl _⟩, ?_⟩
    intro other ho
    obtain ⟨hpos, g, hg, hin⟩ := hrest other ho
    exact ⟨hpos, g, List.mem_cons_of_mem _ hg, hin⟩

/-- A request that is met hands out a fresh region; slabs are only added. -/
theorem alloc (hB : Supply B fit holds) (ht : Told holds h s)
    (hrest : ∀ block ∈ rest, 0 < block.len ∧ ∃ g ∈ h.handed, block.Inside g.block)
    (halign : normalizeAlign align' = normalizeAlign align)
    (ha : SlabPool.alloc B size align' s = .ok (.ok block, t)) :
    Told holds (h.grant size align block rest) t ∧ s.1.1.slabs.length ≤ t.1.1.slabs.length := by
  rcases allocBy_ok ha with ⟨_, hbad, _⟩ | ⟨hs, _, hserve⟩
  · cases hbad
  rw [halign] at hserve
  cases serve_ok hserve with
  | @newest slab older _ slab' es hp hbump =>
    have hback := ht.backed
    have hfilled := ht.filled
    rw [hp] at hback hfilled
    refine ⟨push hB hback hfilled ht.answers hrest hs hbump es, ?_⟩
    rw [hp]
    exact Nat.le_refl _
  | @fresh mem u _ slab es hcall hbump =>
    have hback : holds ((Slab.mk mem 0 :: s.1.1.slabs).map (·.mem)) u :=
      (hB.alloc ht.backed hcall).2
    exact ⟨push hB hback (ht.filled.put mem) ht.answers hrest hs hbump es, Nat.le_succ _⟩

/-- A refused request leaves the slabs as they are, even if it has tried a new one. -/
theorem alloc_refused (hB : Supply B fit holds) (ht : Told holds h s) {e : AllocError}
    (ha : SlabPool.alloc B size align s = .ok (.error e, t)) :
    Told holds h t ∧ t.1.1 = s.1.1 := by
  rcases allocBy_ok ha with ⟨_, _, rfl⟩ | ⟨_, _, hserve⟩
  · exact ⟨ht, rfl⟩
  cases serve_ok hserve with
  | refused hcall => exact ⟨{ ht with backed := hB.alloc_refused ht.backed hcall }, rfl⟩
  | @unusable mem u es _ v hcall _ hfree =>
    have hback : holds (mem :: s.1.1.slabs.map (·.mem)) (u.1, u.2.report es) :=
      hB.report (hB.alloc ht.backed hcall).2
    exact ⟨{ ht with backed := hB.free hback hfree }, rfl⟩

theorem free (hB : Supply B fit holds) (ht : Told holds h s)
    (hf : SlabPool.free old s = .ok ((), t)) : Told holds h t ∧ t.1 = s.1 := by
  obtain ⟨es, rfl⟩ := free_ok hf
  exact ⟨{ ht with backed := hB.report ht.backed }, rfl⟩

/-- A fresh region does not start where a block starts that lies in an earlier one. -/
theorem addr_ne (ht : Told holds (h.grant size align block rest) t) (hpos : 0 < old.len)
    {g : Grant} (hg : g ∈ h.handed) (hin : old.Inside g.block) : block.addr ≠ old.addr := by
  intro heq
  have hd := (List.pairwise_cons.1 ht.filled.apart).1 g.block (List.mem_map_of_mem hg)
  have hfresh := (ht.filled.taken block List.mem_cons_self).1
  refine hd block.addr (Slice.has_addr hfresh) ?_
  rw [heq]
  exact hin.has (Slice.has_addr hpos)

/-- A block that is resized to some bytes keeps its start, or it is moved to a fresh region. -/
theorem resize (hB : Supply B fit holds) (ht : Told holds h s) (hmem : old ∈ h.latest)
    (hn : old.isNull = false) (hs : size ≠ 0)
    (hr : (allocator B).resize old size align s = .ok (r, t)) :
    Told holds (h.after (.resize old size align) r) t ∧
      s.1.1.slabs.length ≤ t.1.1.slabs.length := by
  have hrest : ∀ block ∈ h.latest.erase old, 0 < block.len ∧ ∃ g ∈ h.handed, block.Inside g.block :=
    fun block hb => ht.latest block (List.mem_of_mem_erase hb)
  obtain ⟨hpos, g, hg, hin⟩ := ht.latest old hmem
  rcases resizeBy_ok hn hs hr with ⟨_, rfl, rfl⟩ | ⟨_, hadj⟩
  · exact ⟨ht, Nat.le_refl _⟩
  rcases adjust_ok hadj with ⟨hle, _, rfl, rfl⟩ | hreloc
  · simp only [History.after, hn, Bool.false_eq_true, if_false, if_neg hs, if_true]
    refine ⟨{ ht with
      latest := List.forall_mem_cons.2 ⟨⟨Nat.pos_of_ne_zero hs, g, hg, ?_⟩, hrest⟩ },
      Nat.le_refl _⟩
    have hshrunk : Slice.Inside ⟨old.addr, size⟩ old :=
      ⟨Nat.le_refl _, Nat.add_le_add_left hle _⟩
    exact hshrunk.trans hin
  · rcases relocate_ok hreloc with ⟨e, rfl, ha⟩ | ⟨fresh, u, rfl, ha, hf⟩
    · obtain ⟨htold, hown⟩ := ht.alloc_refused hB ha
      exact ⟨htold, Nat.le_of_eq (by rw [hown])⟩
    · obtain ⟨hnew, hle⟩ := ht.alloc hB hrest (normalizeAlign_idem align) ha
      have hne := hnew.addr_ne hpos hg hin
      simp only [History.after, hn, Bool.false_eq_true, if_false, if_neg hs, if_neg hne]
      have hcopy : WrittenIn ((h.grant size align fresh (h.latest.erase old)).handed.map (·.block))
          u.2.memory (u.2.memory.copyCommon old fresh) :=
        (writtenIn_copyCommon _ _ _).mem List.mem_cons_self
      obtain ⟨hend, hsame⟩ := (hnew.writes hB hcopy).free hB hf
      exact ⟨hend, hsame ▸ hle⟩

/-- One deed of a client: the history is told on, and no slab goes back. -/
theorem step (hB : Supply B fit holds) (ht : Told holds h s) {d : Deed} (hd : h.Allows d)
    (hp : (allocator B).perform d s = .ok (r, t)) :
    Told holds (h.after d r) t ∧ s.1.1.slabs.length ≤ t.1.1.slabs.length := by
  have hrequest : ∀ {size align} {r : Answer} {t}, SlabPool.alloc B size align s = .ok (r, t) →
      Told holds (h.after (.alloc size align) r) t ∧
        s.1.1.slabs.length ≤ t.1.1.slabs.length := by
    intro size align r t ha
    cases r with
    | error e =>
      obtain ⟨htold, hown⟩ := ht.alloc_refused hB ha
      exact ⟨htold, Nat.le_of_eq (by rw [hown])⟩
    | ok block => exact ht.alloc hB ht.latest rfl ha
  cases d with
  | alloc size align => exact hrequest hp
  | allocZeroed size align =>
    rcases allocZeroed_ok hp with ⟨e, rfl, ha⟩ | ⟨block, u, rfl, ha, rfl⟩
    · exact hrequest ha
    · obtain ⟨hnew, hle⟩ := hrequest ha
      have hfill : WrittenIn [block] u.2.memory
          (u.2.memory.write block.addr block.len fun _ => 0) := writtenIn_write _ _ _ _
      exact ⟨hnew.writes hB (hfill.mem List.mem_cons_self), hle⟩
  | resize old size align =>
    change (allocator B).resize old size align s = .ok (r, t) at hp
    cases hn : old.isNull with
    | true =>
      rw [(orderly B).resize_null hn] at hp
      have hgranted := hrequest hp
      cases r with
      | error e => exact hgranted
      | ok block =>
        simp only [History.after, hn, if_true]
        exact hgranted
    | false =>
      rcases hd with hbad | hmem
      · rw [hn] at hbad
        cases hbad
      by_cases hs : size = 0
      · subst hs
        obtain ⟨rfl, hf⟩ := (orderly B).resize_zero_ok hn hp
        obtain ⟨hend, hsame⟩ := ht.free hB hf
        simp only [History.after, hn, Bool.false_eq_true, if_false, if_true]
        exact ⟨hend, Nat.le_of_eq (by rw [hsame])⟩
      · exact ht.resize hB hmem hn hs hp
  | free block =>
    obtain ⟨rfl, hf⟩ := perform_free_ok hp
    obtain ⟨hend, hsame⟩ := ht.free hB hf
    exact ⟨hend, Nat.le_of_eq (by rw [hsame])⟩
  | write addr byte =>
    obtain ⟨rfl, rfl⟩ := perform_write_ok hp
    obtain ⟨g, hg, hhas⟩ := hd
    exact ⟨ht.writes hB (writtenIn_byte ⟨g.block, List.mem_map_of_mem hg, hhas⟩ _ _),
      Nat.le_refl _⟩

theorem use (hB : Supply B fit holds) {start : (SlabPool × β) × Machine}
    (hstart : Told holds ⟨[], []⟩ start) (hu : Use B start h s) : Told holds h s := by
  induction hu with
  | start => exact hstart
  | deed _ hallows hd ih => exact (ih.step hB hallows hd).1
  | @destroy h s t _ hd ih =>
    obtain ⟨hown, hback⟩ := destroy_ok hB.toLedger hd ih.backed
    obtain ⟨⟨p, b⟩, m⟩ := t
    exact .new (by rw [show p = _ from hown]) hback

end Told

/-! ### The regions of a run -/

/-- A block with addresses lies in one slab only. -/
theorem Filled.existsUnique_inside {slabs : List Slab} {out : List Slice} {block : Slice}
    (h : Filled slabs out) (hd : (slabs.map (·.mem)).Pairwise Slice.Disjoint)
    (hb : block ∈ out) :
    ∃! i : Nat, ∃ slab, slabs[i]? = some slab ∧ block.Inside slab.mem := by
  obtain ⟨hpos, slab, hs, hin⟩ := h.taken block hb
  have hin' := hin.trans (h.taken_inside hs)
  obtain ⟨i, hi⟩ := List.mem_iff_getElem?.1 hs
  refine ⟨i, ⟨slab, hi, hin'⟩, ?_⟩
  rintro j ⟨other, hj, hother⟩
  by_contra hne
  have hdisj : ∀ {a b : Nat} {x y : Slab}, a < b → slabs[a]? = some x → slabs[b]? = some y →
      x.mem.Disjoint y.mem := by
    intro a b x y hlt ha hb
    obtain ⟨hla, rfl⟩ := List.getElem?_eq_some_iff.1 ha
    obtain ⟨hlb, rfl⟩ := List.getElem?_eq_some_iff.1 hb
    have := List.pairwise_iff_getElem.1 hd a b (by simpa using hla) (by simpa using hlb) hlt
    simpa using this
  have hhas := hin'.has (Slice.has_addr hpos)
  have hhas' := hother.has (Slice.has_addr hpos)
  rcases Nat.lt_or_gt_of_ne hne with hlt | hgt
  · exact hdisj hlt hj hi _ hhas' hhas
  · exact hdisj hgt hi hj _ hhas hhas'

/-- What holds of all regions that were handed out since the slabs last went back. -/
structure Fresh (h : History) (s : (SlabPool × List Call × β) × Machine) : Prop where
  /-- No two of them share an address, be they in use or not. -/
  apart : (h.handed.map (·.block)).Pairwise Slice.Disjoint
  answers : ∀ g ∈ h.handed, 0 < g.size ∧ g.block.len = g.size ∧
    normalizeAlign g.align ∣ g.block.addr
  home : ∀ g ∈ h.handed, ∃! i : Nat, ∃ slab, s.1.1.slabs[i]? = some slab ∧
    g.block.Inside slab.mem
  /-- The slabs are what the allocator behind has supplied and not got back. -/
  supplied : (outstanding s.1.2.1).Perm (s.1.1.slabs.map (·.mem))
  within : ∀ slab ∈ s.1.1.slabs, slab.offset ≤ slab.mem.len
  latest : ∀ block ∈ h.latest, ∃ g ∈ h.handed, block.Inside g.block

theorem Told.fresh {B : Allocator β} {fit : Nat → Nat → Slice → Prop}
    {holds : List Slice → β × Machine → Prop} {h : History}
    {s : (SlabPool × List Call × β) × Machine} (hB : Supply B fit holds)
    (ht : Told (Traced holds) h s) : Fresh h s where
  apart := ht.filled.apart
  answers g hg := by
    obtain ⟨hlen, hdvd⟩ := ht.answers g hg
    exact ⟨hlen ▸ (ht.filled.taken g.block (List.mem_map_of_mem hg)).1, hlen, hdvd⟩
  home g hg :=
    ht.filled.existsUnique_inside (hB.traced.apart ht.backed) (List.mem_map_of_mem hg)
  supplied := ht.backed.2.2
  within := ht.filled.within
  latest block hb := (ht.latest block hb).2

/-- A slab pool over disjoint blocks of any length and alignment hands out fresh regions only: in
every state that a client can reach, whatever it frees, all regions handed out since the slabs last
went back are fresh, no deed makes the slabs fewer, and a free changes nothing. -/
theorem fresh_of_use {B : Allocator β} {holds : List Slice → β × Machine → Prop} {slabSize : Nat}
    {b : β} {m : Machine} {h : History} {s : (SlabPool × List Call × β) × Machine}
    (hB : Supply B Slice.Any holds) (hback : holds [] (b, m))
    (hu : Use B.traced ((SlabPool.new slabSize, [], b), m) h s) :
    Fresh h s ∧
      (∀ d r t, h.Allows d → (allocator B.traced).perform d s = .ok (r, t) →
        s.1.1.slabs.length ≤ t.1.1.slabs.length) ∧
      ∀ mem, ∃ es, (allocator B.traced).free mem s = .ok ((), (s.1, s.2.report es)) := by
  have htold : Told (Traced holds) h s := Told.use hB.traced (.new rfl (Traced.nil hback)) hu
  exact ⟨htold.fresh hB, fun d r t hd hp => (htold.step hB.traced hd hp).2,
    fun mem => ⟨_, Act.emit_ok.2 rfl⟩⟩

/-- A block is shrunk, freed and resized after that, and a stranger is freed; no region comes
back. -/
theorem fresh_of_stale_blocks :
    ∃ h s, Use Fixed.allocator.traced
        ((SlabPool.new 64, [], ⟨64, 1024, 0⟩), ⟨.zero, [], []⟩) h s ∧
      h.handed.map (·.block) = [⟨160, 20⟩, ⟨144, 16⟩, ⟨112, 16⟩, ⟨72, 40⟩] ∧
      Fresh h s := by
  have huse : (SlabPool.use Fixed.allocator.traced
      [.alloc 40 8, .resize ⟨72, 40⟩ 8 8, .free ⟨72, 8⟩, .allocZeroed 16 16, .free ⟨112, 16⟩,
        .alloc 16 8, .write 150 7, .free ⟨3, 5⟩, .resize ⟨72, 8⟩ 20 8, .free ⟨160, 20⟩] ⟨[], []⟩
      ((SlabPool.new 64, [], ⟨64, 1024, 0⟩), ⟨.zero, [], []⟩)).map (·.1.handed.map (·.block)) =
        some [⟨160, 20⟩, ⟨144, 16⟩, ⟨112, 16⟩, ⟨72, 40⟩] := by
    decide +kernel
  obtain ⟨⟨h, s⟩, hplay, hhanded⟩ := Option.map_eq_some_iff.1 huse
  have hu : Use Fixed.allocator.traced _ h s := Use.start.use hplay
  have hsupply : Supply Fixed.allocator Slice.Any (Stacking.Holds Fixed.Kept) :=
    Fixed.stacking.contract.supply.mono fun _ _ _ _ => trivial
  exact ⟨h, s, hu, hhanded, (fresh_of_use hsupply (Fixed.holds_nil (by decide)) hu).1⟩

end AllocChain.SlabPool
