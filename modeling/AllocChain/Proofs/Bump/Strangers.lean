import AllocChain.Proofs.Bump.Separation
import AllocChain.Proofs.Bump.Top
import AllocChain.Proofs.Trace

/-!
What an allocator of bump regions does with slices that it never handed out. It looks only at where
the slice starts and ends, so it cannot tell a stranger that tops the newest region from a block:
such a slice is freed, and the bytes in front of it are taken for a header. Every other slice is
ignored. `ignores_iff_of_disciplined` says for every state that a disciplined client can reach which
slices are ignored, and `rewound_by_strangers` shows a part of a block that is not.
-/

namespace AllocChain

open Region

variable {β γ : Type}

/-- Freeing the slice ends without a fault and leaves the allocator as it is, with all that is
behind it; at most it is reported. -/
def Ignores (A : Allocator γ) (mem : Slice) (s : γ × Machine) : Prop :=
  ∃ es, A.free mem s = .ok ((), (s.1, s.2.report es))

/-- If the slice tops the newest region, the bytes in front of it happen to say how much of that is
used. -/
def Harmless (regions : List Region) (m : Memory) (mem : Slice) : Prop :=
  ∀ r ∈ regions.head?, r.Tops mem → m.readWord (mem.addr - headerSize) = r.used

/-! ### Fixed allocators -/

namespace Fixed

variable {s t : Region × Machine} {mem : Slice} {size align : Nat} {r : Answer}

theorem steady_buffer (buffer : Slice) :
    Steady allocator adjust fun s : Region × Machine => s.1.buffer = buffer where
  resize_eq := rfl
  machine hi := hi
  alloc := by
    rintro s size align r t rfl ha
    rcases allocBy_ok ha with ⟨_, _, rfl⟩ | ⟨_, _, hpush⟩
    · rfl
    rcases push_ok hpush with ⟨_, _, rfl⟩ | ⟨_, _, _, _, _, halloc, rfl⟩
    · rfl
    · exact alloc_buffer halloc
  free := by
    rintro s block t rfl hf
    rcases free_ok hf with ⟨_, rfl⟩ | ⟨_, ⟨_, _, rfl⟩ | ⟨region, hfree, rfl⟩⟩
    · rfl
    · rfl
    · exact freeTop_buffer hfree
  adjust := by
    rintro s block size align r t rfl _ _ ha
    rcases adjust_ok ha with ⟨region, _, hres, _, rfl⟩ | hreloc
    · exact .inl (resizeInPlace_buffer hres)
    · exact .inr hreloc

theorem reset_buffer (h : reset s = .ok ((), t)) : t.1.buffer = s.1.buffer := by
  simp only [reset, Act.bind_ok, Act.get_ok, Act.set_ok] at h
  obtain ⟨_, _, ⟨rfl, rfl⟩, rfl⟩ := h
  rfl

theorem buffer_of_run {rule : List (Lease Region) → Deed → Prop} {live : List (Lease Region)}
    {start : Region × Machine} (hrun : Run allocator [reset] rule start live s) :
    s.1.buffer = start.1.buffer := by
  refine (steady_buffer start.1.buffer).run ?_ rfl hrun
  intro x hx s t hi hsweep
  rw [List.mem_singleton.1 hx] at hsweep
  exact (reset_buffer hsweep).trans hi

/-- A slice is ignored if it does not top the region, or if it changes nothing there. -/
theorem ignores_iff (h : s.1.Addressable) (hm : mem.Bounded) :
    Ignores allocator mem s ↔ Harmless [s.1] s.2.memory mem := by
  simp only [Harmless, List.head?_cons, Option.mem_some_iff, forall_eq']
  by_cases htop : s.1.Tops mem
  · have hfree := free_top h hm htop
    simp only [htop, true_imp_iff]
    constructor
    · rintro ⟨es, hsame⟩
      rw [show allocator.free mem s = free mem s from rfl, hfree] at hsame
      have hregion := congrArg (·.2.1) (Except.ok.inj hsame)
      exact congrArg Region.used hregion
    · intro hword
      rw [hword] at hfree
      refine ⟨[], hfree.trans ?_⟩
      rw [Machine.report_nil]
  · exact iff_of_true (free_other h hm htop) fun hbad => absurd hbad htop

end Fixed

/-! ### Arenas -/

namespace Arena

variable {B : Allocator β} {s t : (Arena × β) × Machine} {mem : Slice} {size align : Nat}
  {r : Answer}

/-- A slice is ignored if it does not top the newest chunk, or if it changes nothing there. -/
theorem ignores_iff (h : ∀ chunk ∈ s.1.1.chunks, chunk.region.Addressable) (hm : mem.Bounded) :
    Ignores (allocator B) mem s ↔
      Harmless (s.1.1.chunks.map (·.region)) s.2.memory mem := by
  have hnewest : ∀ chunk ∈ s.1.1.chunks.head?, chunk.region.Addressable :=
    fun chunk hc => h chunk (List.mem_of_mem_head? hc)
  cases hc : s.1.1.chunks with
  | nil =>
    refine iff_of_true (free_other hnewest hm ?_) (by simp [Harmless])
    simp [hc]
  | cons chunk older =>
    have hhead : chunk.region.Addressable := h chunk (hc ▸ List.mem_cons_self)
    simp only [Harmless, List.map_cons, List.head?_cons, Option.mem_some_iff, forall_eq']
    by_cases htop : chunk.region.Tops mem
    · have hfree := free_top (B := B) hc hhead hm htop rfl
      simp only [htop, true_imp_iff]
      constructor
      · rintro ⟨es, hsame⟩
        rw [show (allocator B).free mem s = free B mem s from rfl, hfree] at hsame
        split at hsame
        · obtain ⟨_, u, _, ht⟩ := release_ok hsame
          have hchunks := congrArg (·.1.1.chunks) ht
          simp only [hc] at hchunks
          exact absurd hchunks (List.cons_ne_self _ _)
        · have hchunks := congrArg (·.2.1.1.chunks) (Except.ok.inj hsame)
          simp only [hc, List.cons.injEq, and_true] at hchunks
          exact congrArg (·.region.used) hchunks
      · intro hword
        rw [hword, if_neg fun hlast => Nat.pos_iff_ne_zero.1 htop.used_pos hlast.1] at hfree
        have hsame : ({ s.1.1 with chunks := chunk :: older } : Arena) = s.1.1 := by rw [← hc]
        refine ⟨[.arenaFree mem.addr chunk.region.used], hfree.trans ?_⟩
        exact congrArg (fun a => Except.ok ((), ((a, s.1.2), s.2.report _))) hsame
    · refine iff_of_true (free_other hnewest hm ?_) fun hbad => absurd hbad htop
      simpa [hc] using htop

end Arena

/-- In every state that a disciplined client of a fixed allocator or of an arena can reach, a slice
is ignored exactly if it does not top the newest region, or if the bytes in front of it happen to
say how much of that region is used; whether it was ever handed out does not matter. -/
theorem ignores_iff_of_disciplined (mem : Slice) (hm : mem.Bounded) :
    (∀ {base capacity : Nat} {m : Machine} {live : List (Lease Region)} {s : Region × Machine},
      base + capacity < wordLimit → base + headerSize < wordLimit →
      Run Fixed.allocator [Fixed.reset] Disciplined (⟨base, capacity, 0⟩, m) live s →
      (Ignores Fixed.allocator mem s ↔ Harmless [s.1] s.2.memory mem)) ∧
    ∀ {β : Type} {B : Allocator β} {holds : List Slice → β × Machine → Prop} {chunkSize : Nat}
      {b : β} {m : Machine} {live : List (Lease (Arena × List Call × β))}
      {s : (Arena × List Call × β) × Machine},
      Supply B Slice.Any holds → Custody B holds → holds [] (b, m) →
      Run (Arena.allocator B.traced) [Arena.reset B.traced, Arena.destroy B.traced] Disciplined
        ((Arena.new chunkSize, [], b), m) live s →
      (Ignores (Arena.allocator B.traced) mem s ↔
        Harmless (s.1.1.chunks.map (·.region)) s.2.memory mem) := by
  constructor
  · intro base capacity m live s hbound hheader hrun
    have hkept := (Fixed.tenants_of_run hbound hrun).kept
    have hbase : s.1.base = base := congrArg Slice.addr (Fixed.buffer_of_run hrun)
    exact Fixed.ignores_iff ⟨Sound.bounded hkept, hbase ▸ hheader, Sound.used_le hkept⟩ hm
  · intro β B holds chunkSize b m live s hB hC hback hrun
    have hkept := (Arena.tenants_of_run hB.traced hC.traced (.nil hback) hrun).kept
    exact Arena.ignores_iff (hkept.addressable hB.traced (Arena.roomy_of_run hrun)) hm

/-- A block that was freed below another one is ignored when it is freed again; the end of the block
above it is not. -/
theorem ignores_iff_of_stale_blocks :
    (∃ live s, Run Fixed.allocator [Fixed.reset] Disciplined
        (⟨64, 256, 0⟩, ⟨.zero, [], []⟩) live s ∧
      live.map (·.block) = [⟨96, 24⟩] ∧ Ignores Fixed.allocator ⟨72, 10⟩ s ∧
      ¬ Ignores Fixed.allocator ⟨104, 16⟩ s) ∧
    ∃ live s, Run (Arena.allocator Fixed.allocator.traced)
        [Arena.reset Fixed.allocator.traced, Arena.destroy Fixed.allocator.traced] Disciplined
        ((Arena.new 64, [], ⟨64, 1024, 0⟩), ⟨.zero, [], []⟩) live s ∧
      live.map (·.block) = [⟨152, 40⟩] ∧
      Ignores (Arena.allocator Fixed.allocator.traced) ⟨80, 40⟩ s ∧
      ¬ Ignores (Arena.allocator Fixed.allocator.traced) ⟨168, 24⟩ s := by
  have hfixed : (Fixed.allocator.play Disciplined
      [.alloc 10 8, .alloc 24 16, .free ⟨72, 10⟩] []
      (⟨64, 256, 0⟩, ⟨.zero, [], []⟩)).map
        (fun r => (r.1.map (·.block), r.2.1, r.2.2.memory.readWord 96)) =
        some ([⟨96, 24⟩], ⟨64, 256, 56⟩, 0) := by
    decide +kernel
  have harena : ((Arena.allocator Fixed.allocator.traced).play Disciplined
      [.alloc 40 8, .alloc 40 8, .free ⟨80, 40⟩] []
      ((Arena.new 64, [], ⟨64, 1024, 0⟩), ⟨.zero, [], []⟩)).map
        (fun r => (r.1.map (·.block), r.2.1.1.chunks.map (·.region), r.2.2.memory.readWord 160)) =
        some ([⟨152, 40⟩], [⟨144, 64, 48⟩, ⟨72, 64, 48⟩], 0) := by
    decide +kernel
  obtain ⟨⟨live, s⟩, hplay, hends⟩ := Option.map_eq_some_iff.1 hfixed
  obtain ⟨⟨live', s'⟩, hplay', hends'⟩ := Option.map_eq_some_iff.1 harena
  simp only [Prod.mk.injEq] at hends hends'
  obtain ⟨hlive, hregion, hword⟩ := hends
  obtain ⟨hlive', hregions, hword'⟩ := hends'
  have hrun : Run Fixed.allocator [Fixed.reset] Disciplined _ live s := Run.start.play hplay
  have hrun' : Run (Arena.allocator Fixed.allocator.traced)
      [Arena.reset Fixed.allocator.traced, Arena.destroy Fixed.allocator.traced] Disciplined _
      live' s' := Run.start.play hplay'
  have hiff := fun mem hm => (ignores_iff_of_disciplined mem hm).1 (by decide) (by decide) hrun
  have hsupply : Supply Fixed.allocator Slice.Any (Stacking.Holds Fixed.Kept) :=
    Fixed.stacking.contract.supply.mono fun _ _ _ _ => trivial
  have hiff' := fun mem hm => (ignores_iff_of_disciplined mem hm).2 hsupply
    Fixed.stacking.contract.custody (Fixed.holds_nil (by decide)) hrun'
  refine ⟨⟨live, s, hrun, hlive, (hiff _ (by decide)).2 ?_, fun hbad => ?_⟩,
    ⟨live', s', hrun', hlive', (hiff' _ (by decide)).2 ?_, fun hbad => ?_⟩⟩
  · rw [hregion]
    simp [Harmless, Tops]
  · rw [hregion] at hiff
    have hsays := (hiff _ (by decide)).1 hbad ⟨64, 256, 56⟩ rfl (by decide)
    exact absurd (hword.symm.trans hsays) (by decide)
  · rw [hregions]
    simp [Harmless, Tops]
  · rw [hregions] at hiff'
    have hsays := (hiff' _ (by decide)).1 hbad ⟨144, 64, 48⟩ rfl (by decide)
    exact absurd (hword'.symm.trans hsays) (by decide)

/-- A part of the only block of a buffer that is freed takes the block with it, and a part of the
newest block of an arena takes its chunk, which goes back; both blocks are still held. -/
theorem rewound_by_strangers :
    (∃ live s t, Run Fixed.allocator [Fixed.reset] Disciplined
        (⟨64, 256, 0⟩, ⟨.zero, [], []⟩) live s ∧
      live.map (·.block) = [⟨72, 32⟩] ∧ s.1 = ⟨64, 256, 40⟩ ∧
      Fixed.allocator.free ⟨88, 16⟩ s = .ok ((), t) ∧ t.1 = ⟨64, 256, 0⟩) ∧
    ∃ live s t, Run (Arena.allocator Fixed.allocator.traced)
        [Arena.reset Fixed.allocator.traced, Arena.destroy Fixed.allocator.traced] Disciplined
        ((Arena.new 64, [], ⟨64, 1024, 0⟩), ⟨.zero, [], []⟩) live s ∧
      live.map (·.block) = [⟨152, 40⟩, ⟨80, 40⟩] ∧ outstanding s.1.2.1 = [⟨144, 64⟩, ⟨72, 64⟩] ∧
      (Arena.allocator Fixed.allocator.traced).free ⟨168, 24⟩ s = .ok ((), t) ∧
      outstanding t.1.2.1 = [⟨72, 64⟩] := by
  have hfixed : ((Fixed.allocator.play Disciplined [.alloc 32 8] []
      (⟨64, 256, 0⟩, ⟨.zero, [], []⟩)).bind fun r =>
        (Fixed.allocator.free ⟨88, 16⟩ r.2).toOption.map fun f =>
          (r.1.map (·.block), r.2.1, f.2.1)) =
        some ([⟨72, 32⟩], ⟨64, 256, 40⟩, ⟨64, 256, 0⟩) := by
    decide +kernel
  have harena : (((Arena.allocator Fixed.allocator.traced).play Disciplined
      [.alloc 40 8, .alloc 40 8] []
      ((Arena.new 64, [], ⟨64, 1024, 0⟩), ⟨.zero, [], []⟩)).bind fun r =>
        ((Arena.allocator Fixed.allocator.traced).free ⟨168, 24⟩ r.2).toOption.map fun f =>
          (r.1.map (·.block), outstanding r.2.1.2.1, outstanding f.2.1.2.1)) =
        some ([⟨152, 40⟩, ⟨80, 40⟩], [⟨144, 64⟩, ⟨72, 64⟩], [⟨72, 64⟩]) := by
    decide +kernel
  obtain ⟨⟨live, s⟩, hplay, hfree⟩ := Option.bind_eq_some_iff.1 hfixed
  obtain ⟨⟨live', s'⟩, hplay', hfree'⟩ := Option.bind_eq_some_iff.1 harena
  obtain ⟨⟨_, t⟩, ht, hends⟩ := Option.map_eq_some_iff.1 hfree
  obtain ⟨⟨_, t'⟩, ht', hends'⟩ := Option.map_eq_some_iff.1 hfree'
  simp only [Prod.mk.injEq] at hends hends'
  obtain ⟨hlive, hbefore, hafter⟩ := hends
  obtain ⟨hlive', hbefore', hafter'⟩ := hends'
  exact ⟨⟨live, s, t, Run.start.play hplay, hlive, hbefore, Act.ok_of_toOption ht, hafter⟩,
    ⟨live', s', t', Run.start.play hplay', hlive', hbefore', Act.ok_of_toOption ht', hafter'⟩⟩

end AllocChain
