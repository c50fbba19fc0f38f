import AllocChain.Bump.Fixed
import AllocChain.Proofs.Bump.Arena
import AllocChain.Proofs.Bump.Slab
import AllocChain.Proofs.Classes.Steps
import AllocChain.Proofs.Trace

/-!
What an allocator owes the one behind it. Whatever a client does, and whatever ledger is kept
behind, the bookkeeping stands on what is held there (`Owns`). With the ledger of the calls that are
made: whatever the allocator behind answers, the blocks that are outstanding behind are those that
the bookkeeping stands on, and every call behind names one of them as it was handed out (`Settled`).
Nothing is assumed about the blocks: the bookkeeping is exact by itself, even where the client has
overwritten the headers of an arena.
-/

namespace AllocChain

variable {β L : Type}

/-- The calls behind were exact, `stock` lists what is outstanding, and destroying the allocator
settles everything: nothing is outstanding then, the allocator is a new one, and destroying it again
does nothing. -/
structure Settled (destroy : Act (L × List Call × β) Unit) (new : L) (stock : L → List Slice)
    (count : L → Nat) (s : (L × List Call × β) × Machine) : Prop where
  exact : Exact s.1.2.1
  stock : (outstanding s.1.2.1).Perm (stock s.1.1)
  count : (outstanding s.1.2.1).length = count s.1.1
  destroyed : ∀ t, destroy s = .ok ((), t) →
    Exact t.1.2.1 ∧ outstanding t.1.2.1 = [] ∧ t.1.1 = new ∧ destroy t = .ok ((), t)

/-- What is held does not depend on the machine. -/
def Detached (holds : List Slice → β × Machine → Prop) : Prop :=
  ∀ ⦃out b m m'⦄, holds out (b, m) → holds out (b, m')

theorem Tracked.detached : Detached (Tracked (β := β)) := fun _ _ _ _ hh => hh

/-- What the bookkeeping stands on is held behind, and it has the setting of a new one. -/
def Owns (holds : List Slice → β × Machine → Prop) (stock : L → List Slice) (setting : L → Nat)
    (new : L) (s : (L × β) × Machine) : Prop :=
  holds (stock s.1.1) (s.1.2, s.2) ∧ setting s.1.1 = setting new

theorem Owns.of_new {holds : List Slice → β × Machine → Prop} {stock : L → List Slice}
    {setting : L → Nat} {new : L} {s : (L × β) × Machine} (hnil : stock new = [])
    (hnew : s.1.1 = new) (hback : holds [] (s.1.2, s.2)) : Owns holds stock setting new s := by
  simp only [Owns]
  rw [hnew, hnil]
  exact ⟨hback, rfl⟩

/-- Everything is settled after every run, if what is owned survives every request, and destroying
the allocator leaves a new one that has given everything back. -/
theorem Settled.of_run {A : Allocator (L × List Call × β)}
    {adjust : Slice → Nat → Nat → Act (L × List Call × β) Answer} {stock : L → List Slice}
    {setting count : L → Nat} {new : L} {destroy : Act (L × List Call × β) Unit}
    {sweeps : List (Act (L × List Call × β) Unit)} {b : β} {m : Machine}
    {rule : List (Lease (L × List Call × β)) → Deed → Prop}
    {live : List (Lease (L × List Call × β))} {s : (L × List Call × β) × Machine}
    (hsteady : Steady A adjust (Owns Tracked stock setting new)) (hnil : stock new = [])
    (hcount : ∀ l, (stock l).length = count l)
    (hdestroy : ∀ s t, Owns Tracked stock setting new s → destroy s = .ok ((), t) →
      t.1.1 = new ∧ Tracked [] (t.1.2, t.2))
    (hagain : ∀ s, s.1.1 = new → destroy s = .ok ((), s))
    (hsweep : ∀ x ∈ sweeps, ∀ s t, Owns Tracked stock setting new s → x s = .ok ((), t) →
      Owns Tracked stock setting new t)
    (hrun : Run A (destroy :: sweeps) rule ((new, [], b), m) live s) :
    Settled destroy new stock count s := by
  have hi : Owns Tracked stock setting new s := by
    refine hsteady.run ?_ (.of_new hnil rfl .nil) hrun
    intro x hx u t hu hd
    rcases List.mem_cons.1 hx with rfl | hother
    · obtain ⟨hnew, hback⟩ := hdestroy u t hu hd
      exact .of_new hnil hnew hback
    · exact hsweep x hother u t hu hd
  refine ⟨hi.1.1, hi.1.2, hi.1.2.length_eq.trans (hcount _), ?_⟩
  intro t hd
  obtain ⟨hnew, hexact, hnone⟩ := hdestroy s t hi hd
  exact ⟨hexact, List.perm_nil.1 hnone, hnew, hagain t hnew⟩

/-! ### General-purpose allocators -/

namespace GeneralPurpose

variable {B : Allocator β} {fit : Nat → Nat → Slice → Prop}
  {holds : List Slice → β × Machine → Prop} {s t : (GeneralPurpose × β) × Machine} {mem : Slice}
  {c n : Nat} {size align : Nat} {r : Answer}

theorem Roomed.bucketSize {found : Except AllocError Nat} (h : Roomed B c s found t) :
    t.1.1.bucketSize = s.1.1.bucketSize := by
  cases h <;> rfl

theorem alloc_bucketSize (h : GeneralPurpose.alloc B size align s = .ok (r, t)) :
    t.1.1.bucketSize = s.1.1.bucketSize := by
  rcases alloc_ok h with ⟨_, _, rfl⟩ | ⟨_, _, ⟨c, _, hsmall⟩ | hlarge⟩
  · rfl
  · rcases allocSmall_ok hsmall with
      ⟨_, _, _, hroom⟩ | ⟨_, u, _, _, _, _, _, hroom, _, _, _, _, rfl⟩
    · exact hroom.bucketSize
    · have hsame := hroom.bucketSize
      exact hsame
  · obtain ⟨u, ⟨_, _, _, rfl⟩ | ⟨_, _, _, _, rfl⟩⟩ := allocLarge_ok hlarge <;> rfl

theorem free_bucketSize (h : free B mem s = .ok ((), t)) :
    t.1.1.bucketSize = s.1.1.bucketSize := by
  cases free_ok h with
  | slot _ _ hrel => cases hrel <;> rfl
  | _ => rfl

theorem held_new (n : Nat) : (new n).held = [] := by
  rw [held, buckets, new, Vector.toList_replicate]
  rfl

/-- The buckets of one class after the other, and the large blocks. -/
theorem length_held (g : GeneralPurpose) :
    g.held.length = ((List.range classCount).map g.bucketCount).sum + g.large.length := by
  have hcounts : (List.range classCount).map g.bucketCount = g.classes.toList.map List.length := by
    refine List.ext_getElem (by simp) ?_
    intro c hc hc'
    have hlt : c < g.classes.toList.length := by simpa using hc'
    rw [List.getElem_map, List.getElem_map, List.getElem_range, bucketCount,
      List.getD_eq_getElem?_getD, List.getElem?_eq_getElem hlt, Option.getD_some]
  rw [hcounts, held, List.length_append, List.length_map, buckets, List.length_flatten]

/-- What the table stands on is held behind, whatever is asked. -/
theorem owning (hB : Ledger B fit holds) (hoff : Detached holds) (n : Nat) :
    Steady (allocator B) (adjust B) (Owns holds held bucketSize (new n)) where
  resize_eq := rfl
  machine hi := ⟨hoff hi.1, hi.2⟩
  alloc hi ha := ⟨alloc_held hB ha hi.1, (alloc_bucketSize ha).trans hi.2⟩
  free hi hf := ⟨free_held hB hf hi.1, (free_bucketSize hf).trans hi.2⟩
  adjust := by
    rintro s block size align r t ⟨hheld, hsize⟩ hn hs ha
    rcases adjust_held hB hn hs ha hheld with ⟨hback, large, htable⟩ | hreloc
    · refine .inl ⟨hback, ?_⟩
      rw [htable]
      exact hsize
    · exact .inr hreloc

theorem steady (B : Allocator β) (n : Nat) :
    Steady (allocator B.traced) (adjust B.traced) (Owns Tracked held bucketSize (new n)) :=
  owning (Tracked.ledger B) Tracked.detached n

theorem emptied_eq_new {g : GeneralPurpose} (h : g.bucketSize = (new n).bucketSize) :
    { g with classes := Vector.replicate classCount [], occupied := .empty, large := [] } =
      new n := by
  rw [h]
  rfl

/-- What the table stands on is held behind after every run. -/
theorem owns_of_run {rule : List (Lease (GeneralPurpose × β)) → Deed → Prop} {b : β} {m : Machine}
    {live : List (Lease (GeneralPurpose × β))} (hB : Ledger B fit holds) (hoff : Detached holds)
    (hback : holds [] (b, m))
    (hrun : Run (allocator B) [destroy B] rule ((new n, b), m) live s) :
    Owns holds held bucketSize (new n) s := by
  refine (owning hB hoff n).run ?_ (.of_new (held_new n) rfl hback) hrun
  intro x hx u t hu hd
  rw [List.mem_singleton.1 hx] at hd
  obtain ⟨hown, hend⟩ := destroy_ok hB hd hu.1
  exact .of_new (held_new n) (hown.trans (emptied_eq_new hu.2)) hend

theorem destroy_new (h : s.1.1 = new n) : destroy B s = .ok ((), s) := by
  obtain ⟨⟨g, b⟩, m⟩ := s
  obtain rfl : g = new n := h
  rfl

end GeneralPurpose

/-! ### Arenas -/

namespace Arena

variable {B : Allocator β} {fit : Nat → Nat → Slice → Prop}
  {holds : List Slice → β × Machine → Prop} {n : Nat}

/-- The memory of the chunks is held behind, whatever is asked and whatever the headers say. -/
theorem owning (hB : Ledger B fit holds) (hoff : Detached holds) (n : Nat) :
    Steady (allocator B) (adjust B)
      (Owns holds (fun a => a.chunks.map (·.mem)) chunkSize (new n)) where
  resize_eq := rfl
  machine hi := ⟨hoff hi.1, hi.2⟩
  alloc := by
    rintro s size align r t ⟨hheld, hsize⟩ ha
    rcases allocBy_ok ha with ⟨_, _, rfl⟩ | ⟨_, _, hserve⟩
    · exact ⟨hheld, hsize⟩
    cases serve_ok hserve with
    | current hc _ =>
      simp only [hc] at hheld
      exact ⟨hoff hheld, hsize⟩
    | tooLarge _ _ => exact ⟨hheld, hsize⟩
    | refused _ _ hcall => exact ⟨hB.alloc_refused hheld hcall, hsize⟩
    | unusable _ _ hcall _ hfree =>
      exact ⟨hB.free (hB.report (hB.alloc hheld hcall).2) hfree, hsize⟩
    | fresh _ _ hcall _ => exact ⟨hoff (hB.alloc hheld hcall).2, hsize⟩
  free := by
    rintro s block t ⟨hheld, hsize⟩ hf
    cases free_ok hf with
    | ignored => exact ⟨hoff hheld, hsize⟩
    | rewound hc _ _ =>
      simp only [hc] at hheld
      exact ⟨hoff hheld, hsize⟩
    | emptied hc _ _ hcall =>
      simp only [hc] at hheld
      exact ⟨hB.free (hB.report hheld) hcall, hsize⟩
  adjust := by
    rintro s block size align r t ⟨hheld, hsize⟩ _ _ ha
    rcases adjust_ok ha with ⟨chunks, es, hres, rfl, rfl⟩ | hreloc
    · simp only [← resizeIn_mem hres] at hheld
      exact .inl ⟨hoff hheld, hsize⟩
    · exact .inr hreloc

theorem steady (B : Allocator β) (n : Nat) :
    Steady (allocator B.traced) (adjust B.traced)
      (Owns Tracked (fun a => a.chunks.map (·.mem)) chunkSize (new n)) :=
  owning (Tracked.ledger B) Tracked.detached n

theorem emptied_eq_new {a : Arena} (h : a.chunkSize = (new n).chunkSize) :
    { a with chunks := [] } = new n := by
  rw [h]
  rfl

theorem owns_of_run {sweeps : List (Act (Arena × β) Unit)}
    {rule : List (Lease (Arena × β)) → Deed → Prop} {b : β} {m : Machine}
    {live : List (Lease (Arena × β))} {s : (Arena × β) × Machine} (hB : Ledger B fit holds)
    (hoff : Detached holds) (hback : holds [] (b, m))
    (hsweeps : ∀ x ∈ sweeps, x = reset B ∨ x = destroy B)
    (hrun : Run (allocator B) sweeps rule ((new n, b), m) live s) :
    Owns holds (fun a => a.chunks.map (·.mem)) chunkSize (new n) s := by
  refine (owning hB hoff n).run ?_ (.of_new rfl rfl hback) hrun
  intro x hx u t hu hd
  rcases hsweeps x hx with rfl | rfl
  · obtain ⟨hown, hend⟩ := reset_ok hB hd hu.1
    refine ⟨hend, ?_⟩
    rw [hown]
    exact hu.2
  · obtain ⟨hown, hend⟩ := destroy_ok hB hd hu.1
    exact .of_new rfl (hown.trans (emptied_eq_new hu.2)) hend

theorem destroy_new {s : (Arena × β) × Machine} (h : s.1.1 = new n) :
    destroy B s = .ok ((), s) := by
  obtain ⟨⟨a, b⟩, m⟩ := s
  obtain rfl : a = new n := h
  rfl

end Arena

/-! ### Slab pools -/

namespace SlabPool

variable {B : Allocator β} {fit : Nat → Nat → Slice → Prop}
  {holds : List Slice → β × Machine → Prop} {n : Nat}

/-- The memory of the slabs is held behind, whatever is asked. -/
theorem owning (hB : Ledger B fit holds) (hoff : Detached holds) (n : Nat) :
    Steady (allocator B) (adjust B)
      (Owns holds (fun p => p.slabs.map (·.mem)) slabSize (new n)) where
  resize_eq := rfl
  machine hi := ⟨hoff hi.1, hi.2⟩
  alloc := by
    rintro s size align r t ⟨hheld, hsize⟩ ha
    rcases allocBy_ok ha with ⟨_, _, rfl⟩ | ⟨_, _, hserve⟩
    · exact ⟨hheld, hsize⟩
    cases serve_ok hserve with
    | newest hp hbump =>
      simp only [hp, List.map_cons, ← (Slab.bump_ok hbump).1] at hheld
      exact ⟨hoff hheld, hsize⟩
    | refused hcall => exact ⟨hB.alloc_refused hheld hcall, hsize⟩
    | unusable hcall _ hfree =>
      exact ⟨hB.free (hB.report (hB.alloc hheld hcall).2) hfree, hsize⟩
    | @fresh mem _ _ slab _ hcall hbump =>
      have hmem : slab.mem = mem := (Slab.bump_ok hbump).1
      have hnew := (hB.alloc hheld hcall).2
      rw [← hmem] at hnew
      exact ⟨hoff hnew, hsize⟩
  free := by
    rintro s block t hi hf
    obtain ⟨es, rfl⟩ := free_ok hf
    exact ⟨hB.report hi.1, hi.2⟩
  adjust := by
    rintro s block size align r t hi _ _ ha
    rcases adjust_ok ha with ⟨_, _, _, rfl⟩ | hreloc
    · exact .inl ⟨hoff hi.1, hi.2⟩
    · exact .inr hreloc

theorem steady (B : Allocator β) (n : Nat) :
    Steady (allocator B.traced) (adjust B.traced)
      (Owns Tracked (fun p => p.slabs.map (·.mem)) slabSize (new n)) :=
  owning (Tracked.ledger B) Tracked.detached n

theorem emptied_eq_new {p : SlabPool} (h : p.slabSize = (new n).slabSize) :
    { p with slabs := [] } = new n := by
  rw [h]
  rfl

theorem owns_of_run {rule : List (Lease (SlabPool × β)) → Deed → Prop} {b : β} {m : Machine}
    {live : List (Lease (SlabPool × β))} {s : (SlabPool × β) × Machine} (hB : Ledger B fit holds)
    (hoff : Detached holds) (hback : holds [] (b, m))
    (hrun : Run (allocator B) [destroy B] rule ((new n, b), m) live s) :
    Owns holds (fun p => p.slabs.map (·.mem)) slabSize (new n) s := by
  refine (owning hB hoff n).run ?_ (.of_new rfl rfl hback) hrun
  intro x hx u t hu hd
  rw [List.mem_singleton.1 hx] at hd
  obtain ⟨hown, hend⟩ := destroy_ok hB hd hu.1
  exact .of_new rfl (hown.trans (emptied_eq_new hu.2)) hend

theorem destroy_new {s : (SlabPool × β) × Machine} (h : s.1.1 = new n) :
    destroy B s = .ok ((), s) := by
  obtain ⟨⟨p, b⟩, m⟩ := s
  obtain rfl : p = new n := h
  rfl

end SlabPool

/-- Whatever a client does with a general-purpose allocator, an arena or a slab pool, overwriting
bytes and destroying the allocator on the way included, and whatever the allocator behind answers:
all calls behind are exact, and the buckets and the large blocks, the chunks or the slabs are what
is outstanding. -/
theorem settled_of_unruly {β : Type} {B : Allocator β} {b : β} {m : Machine} :
    (∀ {n : Nat} {live : List (Lease (GeneralPurpose × List Call × β))}
      {s : (GeneralPurpose × List Call × β) × Machine},
      Run (GeneralPurpose.allocator B.traced) [GeneralPurpose.destroy B.traced] Unruly
        ((GeneralPurpose.new n, [], b), m) live s →
      Settled (GeneralPurpose.destroy B.traced) (GeneralPurpose.new n) GeneralPurpose.held
        (fun g => ((List.range classCount).map g.bucketCount).sum + g.large.length) s) ∧
    (∀ {n : Nat} {live : List (Lease (Arena × List Call × β))}
      {s : (Arena × List Call × β) × Machine},
      Run (Arena.allocator B.traced) [Arena.destroy B.traced, Arena.reset B.traced] Unruly
        ((Arena.new n, [], b), m) live s →
      Settled (Arena.destroy B.traced) (Arena.new n) (fun a => a.chunks.map (·.mem))
        (fun a => a.chunks.length) s) ∧
    ∀ {n : Nat} {live : List (Lease (SlabPool × List Call × β))}
      {s : (SlabPool × List Call × β) × Machine},
      Run (SlabPool.allocator B.traced) [SlabPool.destroy B.traced] Unruly
        ((SlabPool.new n, [], b), m) live s →
      Settled (SlabPool.destroy B.traced) (SlabPool.new n) (fun p => p.slabs.map (·.mem))
        (fun p => p.slabs.length) s := by
  have hB := Tracked.ledger B
  refine ⟨fun {n} _ _ hrun => ?_, fun {n} _ _ hrun => ?_, fun {n} _ _ hrun => ?_⟩
  · refine .of_run (GeneralPurpose.steady B n) (GeneralPurpose.held_new n)
      GeneralPurpose.length_held ?_ (fun _ => GeneralPurpose.destroy_new)
      (by simp) hrun
    intro s t hi hd
    obtain ⟨hown, hback⟩ := GeneralPurpose.destroy_ok hB hd hi.1
    exact ⟨hown.trans (GeneralPurpose.emptied_eq_new hi.2), hback⟩
  · refine .of_run (Arena.steady B n) rfl (fun _ => List.length_map _) ?_
      (fun _ => Arena.destroy_new) ?_ hrun
    · intro s t hi hd
      obtain ⟨hown, hback⟩ := Arena.destroy_ok hB hd hi.1
      exact ⟨hown.trans (Arena.emptied_eq_new hi.2), hback⟩
    · intro x hx s t hi hr
      rw [List.mem_singleton.1 hx] at hr
      obtain ⟨hown, hback⟩ := Arena.reset_ok hB hr hi.1
      refine ⟨hback, ?_⟩
      rw [hown]
      exact hi.2
  · refine .of_run (SlabPool.steady B n) rfl (fun _ => List.length_map _) ?_
      (fun _ => SlabPool.destroy_new) (by simp) hrun
    intro s t hi hd
    obtain ⟨hown, hback⟩ := SlabPool.destroy_ok hB hd hi.1
    exact ⟨hown.trans (SlabPool.emptied_eq_new hi.2), hback⟩

/-- A client that frees and resizes what it never got, one that overwrites a header and frees below
it, and one that moves a block to a new slab; in the end each destroys its allocator. -/
theorem settled_of_three_clients :
    (∃ live s t, Run (GeneralPurpose.allocator Fixed.allocator.traced)
        [GeneralPurpose.destroy Fixed.allocator.traced] Unruly
        ((GeneralPurpose.new 64, [], ⟨64, 1024, 0⟩), ⟨.zero, [], []⟩) live s ∧
      outstanding s.1.2.1 = [⟨160, 200⟩] ∧
      Settled (GeneralPurpose.destroy Fixed.allocator.traced) (GeneralPurpose.new 64)
        GeneralPurpose.held
        (fun g => ((List.range classCount).map g.bucketCount).sum + g.large.length) s ∧
      GeneralPurpose.destroy Fixed.allocator.traced s = .ok ((), t) ∧
      outstanding t.1.2.1 = [] ∧ t.1.1 = GeneralPurpose.new 64) ∧
    (∃ live s t, Run (Arena.allocator Fixed.allocator.traced)
        [Arena.destroy Fixed.allocator.traced, Arena.reset Fixed.allocator.traced] Unruly
        ((Arena.new 64, [], ⟨64, 1024, 0⟩), ⟨.zero, [], []⟩) live s ∧
      outstanding s.1.2.1 = [⟨144, 64⟩, ⟨72, 64⟩] ∧
      Settled (Arena.destroy Fixed.allocator.traced) (Arena.new 64)
        (fun a => a.chunks.map (·.mem)) (fun a => a.chunks.length) s ∧
      Arena.destroy Fixed.allocator.traced s = .ok ((), t) ∧
      outstanding t.1.2.1 = [] ∧ t.1.1 = Arena.new 64) ∧
    ∃ live s t, Run (SlabPool.allocator Fixed.allocator.traced)
        [SlabPool.destroy Fixed.allocator.traced] Unruly
        ((SlabPool.new 64, [], ⟨64, 1024, 0⟩), ⟨.zero, [], []⟩) live s ∧
      outstanding s.1.2.1 = [⟨216, 64⟩, ⟨144, 64⟩, ⟨72, 64⟩] ∧
      Settled (SlabPool.destroy Fixed.allocator.traced) (SlabPool.new 64)
        (fun p => p.slabs.map (·.mem)) (fun p => p.slabs.length) s ∧
      SlabPool.destroy Fixed.allocator.traced s = .ok ((), t) ∧
      outstanding t.1.2.1 = [] ∧ t.1.1 = SlabPool.new 64 := by
  have hgeneral : ((GeneralPurpose.allocator Fixed.allocator.traced).play Unruly
      [.alloc 10 8, .alloc 100 16, .free ⟨81, 7⟩, .resize ⟨160, 1⟩ 200 16, .free ⟨80, 3⟩] []
      ((GeneralPurpose.new 64, [], ⟨64, 1024, 0⟩), ⟨.zero, [], []⟩)).map (fun r =>
        (outstanding r.2.1.2.1,
          (GeneralPurpose.destroy Fixed.allocator.traced r.2).toOption.map (·.1))) =
      some ([⟨160, 200⟩], some ()) := by
    decide +kernel
  have harena : ((Arena.allocator Fixed.allocator.traced).play Unruly
      [.alloc 40 8, .alloc 40 8, .write 144 8, .free ⟨152, 40⟩, .free ⟨3, 4⟩] []
      ((Arena.new 64, [], ⟨64, 1024, 0⟩), ⟨.zero, [], []⟩)).map (fun r =>
        (outstanding r.2.1.2.1,
          (Arena.destroy Fixed.allocator.traced r.2).toOption.map (·.1))) =
      some ([⟨144, 64⟩, ⟨72, 64⟩], some ()) := by
    decide +kernel
  have hslabs : ((SlabPool.allocator Fixed.allocator.traced).play Unruly
      [.alloc 40 8, .alloc 40 8, .resize ⟨72, 40⟩ 50 8, .free ⟨3, 4⟩] []
      ((SlabPool.new 64, [], ⟨64, 1024, 0⟩), ⟨.zero, [], []⟩)).map (fun r =>
        (outstanding r.2.1.2.1,
          (SlabPool.destroy Fixed.allocator.traced r.2).toOption.map (·.1))) =
      some ([⟨216, 64⟩, ⟨144, 64⟩, ⟨72, 64⟩], some ()) := by
    decide +kernel
  refine ⟨?_, ?_, ?_⟩
  · obtain ⟨⟨live, s⟩, hplay, hends⟩ := Option.map_eq_some_iff.1 hgeneral
    obtain ⟨hout, hlast⟩ := Prod.mk.inj hends
    obtain ⟨⟨_, t⟩, hd, _⟩ := Option.map_eq_some_iff.1 hlast
    have hrun : Run (GeneralPurpose.allocator Fixed.allocator.traced)
        [GeneralPurpose.destroy Fixed.allocator.traced] Unruly _ live s := Run.start.play hplay
    have hsettled := settled_of_unruly.1 hrun
    obtain ⟨_, hnil, hnew, _⟩ := hsettled.destroyed t (Act.ok_of_toOption hd)
    exact ⟨live, s, t, hrun, hout, hsettled, Act.ok_of_toOption hd, hnil, hnew⟩
  · obtain ⟨⟨live, s⟩, hplay, hends⟩ := Option.map_eq_some_iff.1 harena
    obtain ⟨hout, hlast⟩ := Prod.mk.inj hends
    obtain ⟨⟨_, t⟩, hd, _⟩ := Option.map_eq_some_iff.1 hlast
    have hrun : Run (Arena.allocator Fixed.allocator.traced)
        [Arena.destroy Fixed.allocator.traced, Arena.reset Fixed.allocator.traced] Unruly _ live
        s := Run.start.play hplay
    have hsettled := settled_of_unruly.2.1 hrun
    obtain ⟨_, hnil, hnew, _⟩ := hsettled.destroyed t (Act.ok_of_toOption hd)
    exact ⟨live, s, t, hrun, hout, hsettled, Act.ok_of_toOption hd, hnil, hnew⟩
  · obtain ⟨⟨live, s⟩, hplay, hends⟩ := Option.map_eq_some_iff.1 hslabs
    obtain ⟨hout, hlast⟩ := Prod.mk.inj hends
    obtain ⟨⟨_, t⟩, hd, _⟩ := Option.map_eq_some_iff.1 hlast
    have hrun : Run (SlabPool.allocator Fixed.allocator.traced)
        [SlabPool.destroy Fixed.allocator.traced] Unruly _ live s := Run.start.play hplay
    have hsettled := settled_of_unruly.2.2 hrun
    obtain ⟨_, hnil, hnew, _⟩ := hsettled.destroyed t (Act.ok_of_toOption hd)
    exact ⟨live, s, t, hrun, hout, hsettled, Act.ok_of_toOption hd, hnil, hnew⟩

end AllocChain
