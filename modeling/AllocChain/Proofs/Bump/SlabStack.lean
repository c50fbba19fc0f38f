import AllocChain.Proofs.Bump.Brackets
import AllocChain.Proofs.Recall

/-!
What a slab pool leaves of a stack behind it. As long as the pool is in use its slabs are stacked on
the allocator behind, the newest on top (`SlabPool.OnPile`). Destroying the pool takes them from the
other end: a bump region ignores what is not on top, so of all slabs only the newest is reclaimed,
and the others stay used (`buried_of_runs`).
-/

namespace AllocChain

open Memory Region

variable {β : Type}

/-- A block on top of a slab lies in it. -/
theorem Slab.bump_inside {slab slab' : Slab} {size align : Nat} {block : Slice}
    (h : slab.bump size align = .ok (some (block, slab'))) : block.Inside slab'.mem := by
  obtain ⟨hmem, hlen, _, hlow, hend, hwithin⟩ := Slab.bump_ok h
  rw [hmem]
  simp only [Slice.Inside]
  omega

namespace SlabPool

variable {B : Allocator β} {pile : List Slice → β × Machine → Prop} {s t : (SlabPool × β) × Machine}
  {size align : Nat} {r : Answer}

/-- The memories of the slabs have the property. -/
def OnPile (pile : List Slice → β × Machine → Prop) (s : (SlabPool × β) × Machine) : Prop :=
  pile (s.1.1.slabs.map (·.mem)) (s.1.2, s.2)

/-- A request may put a slab in front, and its block lies in a slab. A slab that turns out to have
no room is the newest when it goes back. -/
theorem OnPile.alloc (hP : Pile B pile) (h : OnPile pile s)
    (ha : SlabPool.alloc B size align s = .ok (r, t)) :
    OnPile pile t ∧ ∀ block, r = .ok block →
      ∃ mem ∈ t.1.1.slabs.map (·.mem), block.Inside mem := by
  have hrefused : ∀ {e : AllocError} {u}, OnPile pile u → OnPile pile u ∧ ∀ block,
      (.error e : Answer) = .ok block → ∃ mem ∈ u.1.1.slabs.map (·.mem), block.Inside mem :=
    fun hu => ⟨hu, fun _ hbad => nomatch hbad⟩
  rcases allocBy_ok ha with ⟨e, rfl, rfl⟩ | ⟨_, _, hserve⟩
  · exact hrefused h
  cases serve_ok hserve with
  | refused hcall => exact hrefused (hP.alloc_refused h hcall)
  | unusable hcall _ hfree => exact hrefused (hP.free (hP.report (hP.alloc h hcall)) hfree)
  | @newest slab older block slab' es hp hbump =>
    have hpile : pile ((slab :: older).map (·.mem)) (s.1.2, s.2.report es) := hP.report (hp ▸ h)
    refine ⟨?_, ?_⟩
    · rw [List.map_cons, ← (Slab.bump_ok hbump).1] at hpile
      exact hpile
    · rintro _ ⟨⟩
      exact ⟨slab'.mem, List.mem_cons_self, Slab.bump_inside hbump⟩
  | @fresh mem u block slab es hcall hbump =>
    have hpile : pile (mem :: s.1.1.slabs.map (·.mem)) (u.1, u.2.report es) :=
      hP.report (hP.alloc h hcall)
    refine ⟨?_, ?_⟩
    · rw [← show slab.mem = mem from (Slab.bump_ok hbump).1] at hpile
      exact hpile
    · rintro _ ⟨⟩
      exact ⟨slab.mem, List.mem_cons_self, Slab.bump_inside hbump⟩

theorem OnPile.housed (hP : Pile B pile) : Housed (allocator B) (adjust B)
    (fun l => l.1.slabs.map (·.mem)) (OnPile pile) where
  resize_eq := rfl
  write hi hw := hP.write hi hw
  alloc hi ha := hi.alloc hP ha
  free hi hf := by
    obtain ⟨es, rfl⟩ := free_ok hf
    exact hP.report hi
  adjust hi ha := by
    rcases adjust_ok ha with ⟨_, _, _, rfl⟩ | hreloc
    · exact .inl hi
    · exact .inr hreloc

end SlabPool

/-! ### Blocks that are not on top -/

theorem Allocator.freeAll_append {B : Allocator β} {blocks blocks' : List Slice}
    {s u t : β × Machine} (h : B.freeAll blocks s = .ok ((), u))
    (h' : B.freeAll blocks' u = .ok ((), t)) :
    B.freeAll (blocks ++ blocks') s = .ok ((), t) := by
  induction blocks generalizing s with
  | nil =>
    rw [(Act.pure_ok.1 h).2] at h'
    exact h'
  | cons block blocks ih =>
    obtain ⟨_, v, hfree, hrest⟩ := Act.bind_ok.1 h
    exact Act.bind_ok.2 ⟨(), v, hfree, ih hrest⟩

theorem Region.Unwinds.used_lt {r r' : Region} {e : Entry} {es : List Entry}
    (h : Unwinds [r] (e :: es) [r'])
    (hlow : ∀ e' ∈ e :: es, r.base + e'.below < e'.block.addr + e'.block.len) :
    r.used < r'.used := by
  induction es generalizing e r' with
  | nil =>
    obtain ⟨q, older, hq, htop, hrest⟩ := h.uncons
    obtain ⟨rfl, rfl⟩ := List.cons.inj hq
    rw [rewind_only] at hrest
    cases hrest
    have hbelow := hlow e List.mem_cons_self
    simp only [Tops] at htop
    simp only at hbelow ⊢
    omega
  | cons e' es ih =>
    obtain ⟨q, older, hq, htop, hrest⟩ := h.uncons
    obtain ⟨rfl, rfl⟩ := List.cons.inj hq
    rw [rewind_only] at hrest
    have hless := ih hrest fun d hd => hlow d (List.mem_cons_of_mem _ hd)
    have hbelow := hlow e List.mem_cons_self
    have hbase : r'.base = r.base := by rw [h.base_eq]
    simp only [Tops] at htop
    simp only at hless
    omega

namespace Fixed

variable {old : List Entry} {start s : Region × Machine} {out : List Slice} {block : Slice}

theorem used_lt_of_rewindable
    (h : Rewindable allocator (fun r => [r]) Kept old start (block :: out) s) :
    start.1.used < s.1.used := by
  obtain ⟨first, es, base, hout, hd⟩ := h
  obtain ⟨e, es, rfl, rfl, rfl⟩ := List.map_eq_cons_iff.1 hout
  obtain rfl : base = [start.1] := hd.same (.inl (List.cons_ne_nil _ _))
  have hbase : s.1.base = start.1.base := by rw [Unwinds.base_eq hd.unwinds]
  refine Unwinds.used_lt hd.unwinds ?_
  intro e' he'
  have hlow := Sound.lower hd.kept e' (List.mem_append_left _ he')
  have hpos := Sound.nonempty hd.kept e' (List.mem_append_left _ he')
  omega

theorem free_buried {top e : Entry} {es : List Entry} (hk : Kept (top :: es) s)
    (htop : s.1.Tops top.block) (he : e ∈ es) :
    ∃ evs, free e.block s = .ok ((), (s.1, s.2.report evs)) := by
  have hmem : e ∈ top :: es := List.mem_cons_of_mem _ he
  have hapart := (List.pairwise_cons.1 (stacking.apart hk)).1 e he
  exact free_other (Sound.addressable_of_tops hk htop) (stacking.bounded hk e hmem)
    (htop.not_of_disjoint hapart (Sound.nonempty hk top List.mem_cons_self)
      (Sound.nonempty hk e hmem))

theorem freeAll_buried {top : Entry} {es : List Entry} {blocks : List Slice}
    (hk : Kept (top :: es) s) (htop : s.1.Tops top.block)
    (hblocks : ∀ block ∈ blocks, ∃ e ∈ es, e.block = block) :
    ∃ evs, allocator.freeAll blocks s = .ok ((), (s.1, s.2.report evs)) := by
  induction blocks generalizing s with
  | nil => exact ⟨[], by rw [Machine.report_nil]; rfl⟩
  | cons block blocks ih =>
    obtain ⟨⟨e, he, rfl⟩, hrest⟩ := List.forall_mem_cons.1 hblocks
    obtain ⟨evs, hfree⟩ := free_buried hk htop he
    obtain ⟨evs', hall⟩ := ih (s := (s.1, s.2.report evs)) hk htop hrest
    refine ⟨evs ++ evs', Act.bind_ok.2 ⟨(), _, hfree, ?_⟩⟩
    rw [← Machine.report_report]
    exact hall

/-- Blocks that are taken back the oldest first: all are ignored but the newest. -/
theorem freeAll_reverse
    (h : Rewindable allocator (fun r => [r]) Kept old start out s) :
    ∃ t, allocator.freeAll out.reverse s = .ok ((), t) ∧
      Rewindable allocator (fun r => [r]) Kept old start out.tail t := by
  cases out with
  | nil => exact ⟨s, rfl, h⟩
  | cons block out =>
    have hP := unwinding.pile old start
    obtain ⟨evs, hburied⟩ : ∃ evs, allocator.freeAll out.reverse s =
        .ok ((), (s.1, s.2.report evs)) := by
      obtain ⟨_, es, _, hout, hd⟩ := h
      obtain ⟨e, es, rfl, rfl, rfl⟩ := List.map_eq_cons_iff.1 hout
      obtain ⟨r, older, hr, htop, _⟩ := hd.unwinds.uncons
      obtain ⟨rfl, _⟩ := List.cons.inj hr
      refine freeAll_buried hd.kept htop fun block hb => ?_
      obtain ⟨e', he', rfl⟩ := List.mem_map.1 (List.mem_reverse.1 hb)
      exact ⟨e', List.mem_append_left _ he', rfl⟩
    -- nothing has changed but the reports, so the newest is still on top
    have hstill : Rewindable allocator (fun r => [r]) Kept old start (block :: out)
        (s.1, s.2.report evs) := hP.report h
    obtain ⟨_, t, hfree⟩ := (unwinding.pile_breaksOnly hstill).returns
    refine ⟨t, ?_, hP.free hstill hfree⟩
    rw [List.reverse_cons]
    exact Allocator.freeAll_append hburied (Act.bind_ok.2 ⟨(), t, hfree, rfl⟩)

end Fixed

namespace SlabPool

/-- A pool over a fixed allocator can always be destroyed; all its slabs but the newest stay. -/
theorem destroy_returns {old : List Entry} {start : Region × Machine}
    {s : (SlabPool × Region) × Machine}
    (h : OnPile (Rewindable Fixed.allocator (fun r => [r]) Fixed.Kept old start) s) :
    ∃ t, destroy Fixed.allocator s = .ok ((), t) ∧ t.1.1 = { s.1.1 with slabs := [] } ∧
      Rewindable Fixed.allocator (fun r => [r]) Fixed.Kept old start
        (s.1.1.slabs.tail.map (·.mem)) (t.1.2, t.2) := by
  have hback : ∀ es, ∃ u, Fixed.allocator.freeAll (s.1.1.slabs.reverse.map (·.mem))
      (s.1.2, s.2.report es) = .ok ((), u) ∧ Rewindable Fixed.allocator (fun r => [r]) Fixed.Kept
        old start (s.1.1.slabs.tail.map (·.mem)) u := by
    intro es
    rw [List.map_reverse, List.map_tail]
    exact Fixed.freeAll_reverse ((Fixed.unwinding.pile old start).report h)
  by_cases hany : s.1.1.slabs ≠ []
  · obtain ⟨u, hfree, hend⟩ := hback [.slabsDestroyed s.1.1.slabs.length]
    refine ⟨(({ s.1.1 with slabs := [] }, u.1), u.2), ?_, rfl, hend⟩
    simp only [destroy, Act.bind_ok, Act.own_ok, Act.setOwn_ok]
    refine ⟨_, _, ⟨rfl, rfl⟩, (), _, rfl, ?_⟩
    rw [if_pos hany]
    exact Act.bind_ok.2 ⟨(), _, Act.emit_ok.2 rfl, Act.below_ok.2 ⟨u, hfree, rfl⟩⟩
  · obtain ⟨u, hfree, hend⟩ := hback []
    refine ⟨(({ s.1.1 with slabs := [] }, u.1), u.2), ?_, rfl, hend⟩
    simp only [destroy, Act.bind_ok, Act.own_ok, Act.setOwn_ok]
    refine ⟨_, _, ⟨rfl, rfl⟩, (), _, rfl, ?_⟩
    rw [if_neg hany]
    rw [Machine.report_nil] at hfree
    exact Act.below_ok.2 ⟨u, hfree, rfl⟩

/-- Every state of a slab pool over a fixed allocator that it found in state `s₀`, when only the
pool uses it from then on, can be unwound to `s₀`. -/
theorem onPile_of_run {base capacity slabSize : Nat} {m : Machine} {live₀ : List (Lease Region)}
    {s₀ : Region × Machine} {live : List (Lease (SlabPool × Region))}
    {s : (SlabPool × Region) × Machine} (hbound : base + capacity < wordLimit)
    (hrun₀ : Run Fixed.allocator [Fixed.reset] Disciplined (⟨base, capacity, 0⟩, m) live₀ s₀)
    (hrun : Run (allocator Fixed.allocator) [] Disciplined ((new slabSize, s₀.1), s₀.2) live s) :
    OnPile (Rewindable Fixed.allocator (fun r => [r]) Fixed.Kept
      (live₀.map (·.entry fun r => [r])) s₀) s := by
  have hold := (Fixed.tenants_of_run hbound hrun₀).kept
  have hB := (Fixed.stacking.contract.framed ((live₀.map (·.entry fun r => [r])).map (·.block))
    s₀.2.memory).keeper
  have hback : Framed (Stacking.Holds Fixed.Kept) ((live₀.map (·.entry fun r => [r])).map (·.block))
      s₀.2.memory [] s₀ := ⟨⟨_, .refl _, hold⟩, .refl _ _⟩
  have hP := Fixed.unwinding.pile (live₀.map (·.entry fun r => [r])) s₀
  refine (OnPile.housed hP).run (by simp) ?_ ⟨none, [], _, rfl, .initial hold⟩ hrun
  intro live s addr byte hrun hwrite hi
  -- a client writes into its blocks, and these lie in the slabs
  have hkept : Recalled (Kept _) live s := ((lending hB).contract.tenancy (orderly _)).run
    (orderly _) (by simp) ⟨.new slabSize hback, by simp, by simp⟩ hrun
  refine (OnPile.housed hP).write hi ((hwrite.writtenIn s.2.memory fun _ => byte).inside ?_)
  exact fun block hb => hkept.held.filled.inside hb

end SlabPool

/-- A slab pool over a fixed allocator that only it uses from some state on. Until it is destroyed,
used is what was used then and everything up to the end of the newest slab. It can always be
destroyed; that takes back the newest slab and no other, so used is what it was before if and only
if there was at most one. -/
theorem buried_of_runs {base capacity slabSize : Nat} {m : Machine} {live₀ : List (Lease Region)}
    {s₀ : Region × Machine} {live : List (Lease (SlabPool × Region))}
    {s : (SlabPool × Region) × Machine} (hbound : base + capacity < wordLimit)
    (hrun₀ : Run Fixed.allocator [Fixed.reset] Disciplined (⟨base, capacity, 0⟩, m) live₀ s₀)
    (hrun : Run (SlabPool.allocator Fixed.allocator) [] Disciplined
      ((SlabPool.new slabSize, s₀.1), s₀.2) live s) :
    s.1.2 = { s₀.1 with used := s₀.1.usedUnder (s.1.1.slabs.map (·.mem)) } ∧
    ∃ t, SlabPool.destroy Fixed.allocator s = .ok ((), t) ∧ t.1.1.slabs = [] ∧
      t.1.2 = { s₀.1 with used := s₀.1.usedUnder (s.1.1.slabs.tail.map (·.mem)) } ∧
      (t.1.2.used = s₀.1.used ↔ s.1.1.slabs.length ≤ 1) := by
  have hi := SlabPool.onPile_of_run hbound hrun₀ hrun
  obtain ⟨t, hdestroy, hpool, hend⟩ := SlabPool.destroy_returns hi
  have hused := Fixed.used_of_rewindable hend
  refine ⟨Fixed.used_of_rewindable hi, t, hdestroy, by rw [hpool], hused, ?_⟩
  have hlength := s.1.1.slabs.length_tail
  cases htail : s.1.1.slabs.tail with
  | nil =>
    rw [htail] at hused hlength
    rw [List.length_nil] at hlength
    exact iff_of_true (congrArg Region.used hused) (by omega)
  | cons next older =>
    rw [htail] at hend hlength
    rw [List.length_cons] at hlength
    exact iff_of_false (Nat.ne_of_gt (Fixed.used_lt_of_rewindable hend)) (by omega)

/-- A pool of three slabs on top of an older block, with a block that was moved and one that was
freed. -/
theorem buried_of_three_slabs : ∃ live₀ s₀ live s t,
    Run Fixed.allocator [Fixed.reset] Disciplined (⟨64, 1024, 0⟩, ⟨.zero, [], []⟩) live₀ s₀ ∧
    Run (SlabPool.allocator Fixed.allocator) [] Disciplined
      ((SlabPool.new 64, s₀.1), s₀.2) live s ∧
    s₀.1.used = 24 ∧ s.1.1.slabs.map (·.mem) = [⟨272, 100⟩, ⟨168, 96⟩, ⟨96, 64⟩] ∧
    SlabPool.destroy Fixed.allocator s = .ok ((), t) ∧
    t.1.2 = { s₀.1 with used := s₀.1.usedUnder [⟨168, 96⟩, ⟨96, 64⟩] } ∧
    t.1.2.used ≠ s₀.1.used := by
  have hover : ((Fixed.allocator.play Disciplined [.alloc 16 8] []
      (⟨64, 1024, 0⟩, ⟨.zero, [], []⟩)).bind fun r =>
        ((SlabPool.allocator Fixed.allocator).play Disciplined
          [.alloc 40 8, .write 100 7, .resize ⟨96, 40⟩ 96 8, .alloc 100 4, .free ⟨168, 96⟩] []
          ((SlabPool.new 64, r.2.1), r.2.2)).map fun q => (r.2.1.used, q.2.1.1.slabs.map (·.mem))) =
        some (24, [⟨272, 100⟩, ⟨168, 96⟩, ⟨96, 64⟩]) := by
    decide +kernel
  obtain ⟨⟨live₀, s₀⟩, hplay₀, hrest⟩ := Option.bind_eq_some_iff.1 hover
  obtain ⟨⟨live, s⟩, hplay, hends⟩ := Option.map_eq_some_iff.1 hrest
  obtain ⟨hused, hslabs⟩ := Prod.mk.inj hends
  have hrun₀ : Run Fixed.allocator [Fixed.reset] Disciplined _ live₀ s₀ := Run.start.play hplay₀
  have hrun : Run (SlabPool.allocator Fixed.allocator) [] Disciplined _ live s :=
    Run.start.play hplay
  obtain ⟨_, t, hdestroy, _, hend, hiff⟩ := buried_of_runs (by decide) hrun₀ hrun
  have hlength := congrArg List.length hslabs
  rw [List.length_map] at hlength
  rw [List.map_tail, hslabs] at hend
  refine ⟨live₀, s₀, live, s, t, hrun₀, hrun, hused, hslabs, hdestroy, hend, fun hback => ?_⟩
  exact absurd (hiff.1 hback) (by rw [hlength]; decide)

/-- Destroying a pool need not restore the buffer behind it, and what a pool was used for once it
cannot be used for again: of two slabs that fill a buffer one stays used, so the second of the same
two requests is refused the next time. -/
theorem exhausted_by_cycles :
    (∃ live s t, Run (SlabPool.allocator Fixed.allocator) [] Disciplined
        ((SlabPool.new 64, ⟨64, 144, 0⟩), ⟨.zero, [], []⟩) live s ∧
      SlabPool.destroy Fixed.allocator s = .ok ((), t) ∧ t.1.2 = ⟨64, 144, 72⟩) ∧
    ∃ live s e t, Run (SlabPool.allocator Fixed.allocator) [SlabPool.destroy Fixed.allocator]
        Disciplined ((SlabPool.new 64, ⟨64, 144, 0⟩), ⟨.zero, [], []⟩) live s ∧
      live.map (·.block) = [⟨144, 48⟩] ∧
      SlabPool.alloc Fixed.allocator 48 8 s = .ok (.error e, t) := by
  have hcycles : (((SlabPool.allocator Fixed.allocator).play Disciplined
      [.alloc 48 8, .alloc 48 8] [] ((SlabPool.new 64, ⟨64, 144, 0⟩), ⟨.zero, [], []⟩)).bind
        fun r => (SlabPool.destroy Fixed.allocator r.2).toOption.bind fun t =>
          ((SlabPool.allocator Fixed.allocator).play Disciplined [.alloc 48 8] [] t.2).bind
            fun q => (SlabPool.alloc Fixed.allocator 48 8 q.2).toOption.map fun a =>
              (t.2.1.2, q.1.map (·.block), a.1)) =
        some (⟨64, 144, 72⟩, [⟨144, 48⟩], .error (.outOfMemory 64 8)) := by
    decide +kernel
  obtain ⟨⟨live, s⟩, hplay, hrest⟩ := Option.bind_eq_some_iff.1 hcycles
  obtain ⟨⟨_, t⟩, hdestroy, hrest⟩ := Option.bind_eq_some_iff.1 hrest
  obtain ⟨⟨live', s'⟩, hplay', hrest⟩ := Option.bind_eq_some_iff.1 hrest
  obtain ⟨⟨answer, t'⟩, halloc, hends⟩ := Option.map_eq_some_iff.1 hrest
  simp only [Prod.mk.injEq] at hends
  obtain ⟨hused, hblocks, rfl⟩ := hends
  replace hdestroy := Act.ok_of_toOption hdestroy
  have hrun : Run (SlabPool.allocator Fixed.allocator) [] Disciplined _ live s :=
    Run.start.play hplay
  have hrun' : Run (SlabPool.allocator Fixed.allocator) [SlabPool.destroy Fixed.allocator]
      Disciplined _ live s := Run.start.play hplay
  have hcycle := (hrun'.sweep (List.mem_singleton_self _) hdestroy).play hplay'
  exact ⟨⟨live, s, t, hrun, hdestroy, hused⟩,
    live', s', _, t', hcycle, hblocks, Act.ok_of_toOption halloc⟩

end AllocChain
