import AllocChain.Proofs.Chain.Footing

/-!
Chains that never break off, but for one move. Every sum, difference and position that an allocator
of a chain computes is there, as long as the addresses at the bottom stay below `addressLimit` and
the calls can be counted, whatever disciplined clients ask for (`returns_of_disciplined`). A
general-purpose allocator may be handed any slice at all; only if it moves a small block under a
length that the block does not have can the copy overlap, and it does (`overlap_of_long_slice`). The
proof compares a run with itself, on terms that do not allow it to break off.
-/

namespace AllocChain

open Memory

/-- An allocator that keeps to the contract, hands out no block that reaches beyond the limit, and
comes to an end whatever it is asked by those who keep to it. -/
structure Dependable {β : Type} (B : Allocator β) (holds : List Slice → β × Machine → Prop) : Prop
    extends Service B holds where
  low {out s} : holds out s → ∀ block ∈ out, block.addr + block.len ≤ addressLimit
  alloc_returns {out s} (size align : Nat) : holds out s → ∃ r t, B.alloc size align s = .ok (r, t)
  resize_returns {out s old size} (align : Nat) : holds (old :: out) s → old.isNull = false →
    size ≠ 0 → ∃ r t, B.resize old size align s = .ok (r, t)
  free_returns {out s block} : holds (block :: out) s → ∃ t, B.free block s = .ok ((), t)
  null_returns {out s block} : holds out s → block.isNull = true →
    ∃ t, B.free block s = .ok ((), t)

/-- The terms on which a run is compared with itself and nothing may break off. -/
def Terms.total : Terms where
  may := False
  mirror := True
  fair _ _ := True
  refusal _ := True
  fair_of_valid _ := trivial
  exhausted _ _ := trivial

theorem Dependable.twins {β : Type} {B : Allocator β} {holds : List Slice → β × Machine → Prop}
    (hB : Dependable B holds) :
    Twins .total B holds holds fun _ _ s s' => s' = s where
  left := hB.keeper
  right := hB.keeper
  service := hB.toService
  service' := hB.toService
  fewer h := h
  perm _ h := h
  mirror _ h := h
  write hp _ _ hmirror := by rw [hmirror trivial, hp.related]
  low hp := .inr (hB.low hp.left)
  alloc {n out s s' size align} hp _ := by
    obtain rfl := hp.related
    obtain ⟨r, t, ht⟩ := hB.alloc_returns size align hp.left
    refine .of_returns ht ?_
    cases r with
    | ok block => exact rfl
    | error e => exact ⟨rfl, fun _ => trivial⟩
  resize {n out s s' old size align} hp hn hs _ := by
    obtain rfl := hp.related
    obtain ⟨r, t, ht⟩ := hB.resize_returns align hp.left hn hs
    refine .of_returns ht ?_
    cases r with
    | ok block => exact rfl
    | error e => exact ⟨rfl, fun _ => trivial⟩
  free hp := by
    obtain rfl := hp.related
    obtain ⟨t, ht⟩ := hB.free_returns hp.left
    exact .of_returns ht rfl
  free_null hp hn := by
    obtain rfl := hp.related
    obtain ⟨t, ht⟩ := hB.null_returns hp.left hn
    exact .of_returns ht rfl

namespace Chain

variable {β : Type}

/-- The regions that can be asked how much is left in them: those of the tiers that are fixed
allocators, and those at the bottom. -/
def regions (below : β → List Region) : (tiers : List Tier) → Book β tiers → List Region
  | [], b => below b
  | .fixed _ :: tiers, b => b.1 :: regions below tiers b.2
  | .arena _ :: tiers, b | .slabs _ :: tiers, b | .general _ :: tiers, b | .counting :: tiers, b =>
    regions below tiers b.2

/-- What `P` says of the general-purpose allocator at depth `k` and of what it stands on. -/
def General (B : Allocator β)
    (P : ∀ {γ : Type}, Allocator γ → (GeneralPurpose × γ) × Machine → Prop) :
    (tiers : List Tier) → Nat → Book β tiers × Machine → Prop
  | .general _ :: tiers, 0, s => P (allocator B tiers) s
  | _ :: tiers, k + 1, s => General B P tiers k (s.1.2, s.2)
  | _, _, _ => False

theorem General.succ_iff {B : Allocator β} {k : Nat}
    {P : ∀ {γ : Type}, Allocator γ → (GeneralPurpose × γ) × Machine → Prop} {tier : Tier}
    {tiers : List Tier} {s : Book β (tier :: tiers) × Machine} :
    General B P (tier :: tiers) (k + 1) s ↔ General B P tiers k (s.1.2, s.2) := by
  cases tier <;> exact .rfl

/-- Resizing `mem` at depth `k` breaks off so, in the copy. -/
abbrev Overlaps (B : Allocator β) (mem : Slice) (size align : Nat) (brk : Breakdown)
    (tiers : List Tier) (k : Nat) (s : Book β tiers × Machine) : Prop :=
  General B (fun A s => GeneralPurpose.Overlaps A mem size align s brk) tiers k s

/-- At depth `k` the slice starts at a slot that is shorter. -/
abbrev Longer (B : Allocator β) (mem : Slice) (tiers : List Tier) (k : Nat)
    (s : Book β tiers × Machine) : Prop :=
  General B (fun _ s => ∃ c i j, s.1.1.owner mem.addr = .ok (some (.slot c i j)) ∧
    2 ^ c < mem.len) tiers k s

/-- Whatever comes next comes to an end: what any client may do, taking all blocks of the topmost
allocator back, and freeing any slice at all in a general-purpose allocator. Resizing any slice
there breaks off exactly where the copy of a move overlaps, which takes a slice that is longer than
its slot. What is left of a region can be told. -/
structure Total (B : Allocator β) (bottom : List (Act β Unit)) (below : β → List Region)
    (tiers : List Tier) (clients : Nat → List Slice) (s : Book β tiers × Machine) : Prop where
  deed : ∀ k ≤ tiers.length, ∀ d : Deed, d.Proper (clients k) →
    ∃ r t, (member B tiers k).perform d s = .ok (r, t)
  sweep : ∀ x ∈ sweeps B bottom tiers, ∃ t, x s = .ok ((), t)
  freed : ∀ k bucketSize, tiers[k]? = some (.general bucketSize) → ∀ mem : Slice,
    ∃ t, (member B tiers k).free mem s = .ok ((), t)
  resized : ∀ k bucketSize, tiers[k]? = some (.general bucketSize) → ∀ (mem : Slice) size align,
    ∀ brk, (member B tiers k).resize mem size align s = .error brk ↔
      Overlaps B mem size align brk tiers k s
  longer : ∀ k mem size align brk, Overlaps B mem size align brk tiers k s →
    Longer B mem tiers k s
  remaining : ∀ region ∈ regions below tiers s.1, ∃ bytes, region.remaining = .ok bytes

/-- What a run may stand on: a fixed allocator whose buffer ends low, or a dependable heap. -/
inductive Base : {β : Type} → Allocator β → List (Act β Unit) → (β → List Region) →
    β × Machine → Prop
  | fixed {base capacity m} : base + capacity ≤ addressLimit →
      Base Fixed.allocator [Fixed.reset] (fun r => [r]) (⟨base, capacity, 0⟩, m)
  | heap {β : Type} {B : Allocator β} {holds start} : Dependable B holds → holds [] start →
      Base B [] (fun _ => []) start

variable {T : Terms} {B : Allocator β} {bottom : List (Act β Unit)} {below : β → List Region}
  {holds holds' : List Slice → β × Machine → Prop}
  {rel : Nat → List Slice → β × Machine → β × Machine → Prop} {start : β × Machine}
  {j k n : Nat} {tiers : List Tier} {clients : Nat → List Slice} {out : List Slice}
  {s s' : Book β tiers × Machine} {m₀ m₀' : Memory}

/-- No region has more taken than there is. -/
theorem Stands.used_le
    (hbelow : ∀ out u, holds out u → ∀ region ∈ below u.1, region.used ≤ region.capacity)
    (h : Stands holds m₀ tiers clients out s) :
    ∀ region ∈ regions below tiers s.1, region.used ≤ region.capacity := by
  induction tiers generalizing clients out with
  | nil => exact hbelow _ _ h
  | cons tier tiers ih =>
    obtain ⟨blocks, hblocks⟩ := Tier.backed h
    have hrest : ∀ region ∈ regions below tiers s.1.2, region.used ≤ region.capacity :=
      ih hblocks.1
    cases tier with
    | fixed buffer =>
      obtain ⟨es, _, hk⟩ := Fixed.Seated.stacked h
      simp only [regions]
      exact List.forall_mem_cons.2 ⟨Region.Sound.used_le hk, hrest⟩
    | arena | slabs | general | counting => exact hrest

/-- Any slice may be freed in a general-purpose allocator, at whatever depth, and be resized unless
the copy overlaps. -/
theorem stray_alike (hB : Twins T B holds holds' rel) {bucketSize : Nat}
    (htier : tiers[k]? = some (.general bucketSize))
    (hp : Paired (Stands holds m₀ tiers clients) (Stands holds' m₀' tiers clients)
      (Twin T rel tiers clients (n + 1)) out s s') (mem : Slice) :
    Act.Alike T.may (fun _ _ _ => True) ((member B tiers k).free mem) ((member B tiers k).free mem)
        s s' ∧
      ∀ size align, (∀ brk, Overlaps B mem size align brk tiers k s → T.may) →
        Act.Alike T.may (fun _ _ _ => True) ((member B tiers k).resize mem size align)
          ((member B tiers k).resize mem size align) s s' := by
  induction k generalizing tiers clients out with
  | zero =>
    cases tiers with
    | nil => cases htier
    | cons tier tiers =>
      cases htier
      have hbelow := (twins hB m₀ m₀' tiers fun k => clients (k + 1)).framed (clients 1) m₀ m₀'
      rw [member_zero]
      refine ⟨?_, fun size align hover => ?_⟩
      · exact (GeneralPurpose.free_alike hbelow hp mem).imp fun _ _ _ _ _ _ => trivial
      · exact (GeneralPurpose.resize_alike hbelow hp mem size align hover).imp
          fun _ _ _ _ _ _ => trivial
  | succ k ih =>
    cases tiers with
    | nil => cases htier
    | cons tier tiers =>
      obtain ⟨blocks, hblocks⟩ := Tier.backed_paired hp
      obtain ⟨hfree, hresize⟩ := ih htier ⟨hblocks.left.1, hblocks.right.1, hblocks.related⟩
      refine ⟨.below (hfree.imp fun _ _ _ _ _ _ => trivial), fun size align hover => ?_⟩
      exact .below ((hresize size align fun brk h => hover brk (General.succ_iff.2 h)).imp
        fun _ _ _ _ _ _ => trivial)

theorem Overlaps.resize_eq {mem : Slice} {size align : Nat} {brk : Breakdown}
    (h : Overlaps B mem size align brk tiers k s) :
    (member B tiers k).resize mem size align s = .error brk := by
  induction k generalizing tiers with
  | zero =>
    cases tiers with
    | nil => exact h.elim
    | cons tier tiers =>
      rw [member_zero]
      cases tier with
      | general bucketSize => exact GeneralPurpose.Overlaps.resize_eq h
      | fixed | arena | slabs | counting => exact h.elim
  | succ k ih =>
    cases tiers with
    | nil => exact h.elim
    | cons tier tiers =>
      have hbelow := ih (General.succ_iff.1 h)
      obtain ⟨⟨l, b⟩, m⟩ := s
      simp only [member, Allocator.lift, Act.below_apply, hbelow, Except.map]

/-- The copy overlaps only if the slice is longer than the slot that it starts at. -/
theorem Overlaps.longer (hB : Twins T B holds holds' rel) {mem : Slice} {size align : Nat}
    {brk : Breakdown} (hp : Paired (Stands holds m₀ tiers clients) (Stands holds' m₀' tiers clients)
      (Twin T rel tiers clients n) out s s')
    (h : Overlaps B mem size align brk tiers k s) : Longer B mem tiers k s := by
  induction k generalizing tiers clients out with
  | zero =>
    cases tiers with
    | nil => exact h.elim
    | cons tier tiers =>
      cases tier with
      | general bucketSize =>
        have hbelow := (twins hB m₀ m₀' tiers fun k => clients (k + 1)).framed (clients 1) m₀ m₀'
        exact GeneralPurpose.Overlaps.long hbelow.service.meets hp.left.1 h
      | fixed | arena | slabs | counting => exact h.elim
  | succ k ih =>
    cases tiers with
    | nil => exact h.elim
    | cons tier tiers =>
      obtain ⟨blocks, hblocks⟩ := Tier.backed_paired hp
      exact General.succ_iff.2
        (ih ⟨hblocks.left.1, hblocks.right.1, hblocks.related⟩ (General.succ_iff.1 h))

/-- A chain that is alike to itself on these terms is total. -/
theorem Abreast.total (hF : Footing .total B bottom holds holds rel)
    (hbelow : ∀ out u, holds out u → ∀ region ∈ below u.1, region.used ≤ region.capacity)
    (h : Abreast .total holds holds rel (j + 1) tiers clients s s) :
    Total B bottom below tiers clients s where
  deed k hk d hd := by
    have hcalls := d.calls_le
    obtain ⟨i, hi⟩ : ∃ i, j + 1 = i + d.calls := ⟨j + 1 - d.calls, by omega⟩
    rw [hi] at h
    have hstep := step_alike hF.toTwins hk (.refl d) (fun _ => rfl) h hd (.inl d.asks_anything)
    obtain ⟨r, t, ht, _⟩ := hstep.returns
    exact ⟨r, t, ht⟩
  sweep x hx := by
    obtain ⟨_, t, ht, _⟩ := (hF.swept h hx).returns
    exact ⟨t, ht⟩
  freed k bucketSize htier mem := by
    obtain ⟨_, t, ht, _⟩ := (stray_alike hF.toTwins htier h mem).1.returns
    exact ⟨t, ht⟩
  resized k bucketSize htier mem size align brk := by
    refine ⟨fun hbrk => ?_, Overlaps.resize_eq⟩
    by_cases hover : ∃ brk', Overlaps B mem size align brk' tiers k s
    · obtain ⟨brk', hover⟩ := hover
      obtain rfl : brk' = brk := Except.error.inj (hover.resize_eq.symm.trans hbrk)
      exact hover
    · obtain ⟨_, _, hreturns, _⟩ := ((stray_alike hF.toTwins htier h mem).2 size align
        fun brk' h => hover ⟨brk', h⟩).returns
      cases hreturns.symm.trans hbrk
  longer k mem size align brk hover := hover.longer hF.toTwins h
  remaining region hr :=
    ⟨_, Region.remaining_returns (h.left.used_le hbelow region hr)⟩

/-- What a run stands on is alike to itself. -/
theorem Base.footing (h : Base B bottom below start) : ∃ holds rel,
    Footing .total B bottom holds holds rel ∧ holds [] start ∧ (∀ n, rel n [] start start) ∧
      ∀ out u, holds out u → ∀ region ∈ below u.1, region.used ≤ region.capacity := by
  cases h with
  | @fixed base capacity m htop =>
    have hbound : base + capacity < wordLimit := Nat.lt_of_le_of_lt htop (by decide)
    have hpaired := Fixed.paired_nil (T := .total) (m := m) hbound (.inr htop) fun _ => rfl
    refine ⟨_, _, Fixed.footing .total, hpaired.left, fun _ => hpaired.related, ?_⟩
    rintro out u ⟨es, _, hk⟩ region hr
    rw [List.mem_singleton.1 hr]
    exact Region.Sound.used_le hk
  | heap hB hstart =>
    refine ⟨_, _, ⟨hB.twins, fun hx => by cases hx⟩, hstart, fun _ => rfl, ?_⟩
    intro out u _ region hr
    cases hr

end Chain

/-- Over a fixed allocator whose buffer ends low, and over any dependable heap, after fewer than
`2 ^ 63` calls of disciplined clients: whatever comes next comes to an end. -/
theorem returns_of_disciplined {β : Type} {B : Allocator β} {bottom : List (Act β Unit)}
    {below : β → List Region} {start : β × Machine} {n : Nat} {tiers : List Tier}
    {clients : Nat → List Slice} {s : Chain.Book β tiers × Machine}
    (hbase : Chain.Base B bottom below start) (hn : n < 2 ^ 63)
    (hrun : Chain.Course B bottom (fun _ _ => True) start n tiers clients s) :
    Chain.Total B bottom below tiers clients s := by
  obtain ⟨holds, rel, hF, hstart, hrel, hbelow⟩ := hbase.footing
  obtain ⟨j, hj⟩ : ∃ j, n + (j + 1) = 2 ^ 63 := ⟨2 ^ 63 - n - 1, by omega⟩
  have hlimit : Terms.total.may ∨ 2 ^ 63 < wordLimit := .inr (by decide)
  exact (Chain.Course.beside hF hlimit hstart (hrel _) hrun hj).total hF hbelow

/-- A block of ten bytes is resized under a length of a thousand: what is read of it reaches into
the block that it is moved to. -/
theorem overlap_of_long_slice :
    ∃ live s, Run (GeneralPurpose.allocator Fixed.allocator)
        [GeneralPurpose.destroy Fixed.allocator] Disciplined
        ((GeneralPurpose.new 64, ⟨64, 1024, 0⟩), ⟨.zero, [], []⟩) live s ∧
      live.map (·.block) = [⟨80, 10⟩] ∧
      ∃ brk, (GeneralPurpose.allocator Fixed.allocator).resize ⟨80, 1000⟩ 200 8 s = .error brk ∧
        brk.fault = .copyOverlap := by
  have hlast : ((GeneralPurpose.allocator Fixed.allocator).play Disciplined [.alloc 10 8] []
      ((GeneralPurpose.new 64, ⟨64, 1024, 0⟩), ⟨.zero, [], []⟩)).map (fun r =>
        (r.1.map (·.block),
          ((GeneralPurpose.allocator Fixed.allocator).resize ⟨80, 1000⟩ 200 8).fault? r.2)) =
        some ([⟨80, 10⟩], some .copyOverlap) := by
    decide +kernel
  obtain ⟨⟨live, s⟩, hplay, hends⟩ := Option.map_eq_some_iff.1 hlast
  obtain ⟨hlive, hfault⟩ := Prod.mk.inj hends
  exact ⟨live, s, Run.start.play hplay, hlive, Act.fault?_eq_some_iff.1 hfault⟩

/-- A scripted heap that keeps to the contract and ends low is dependable. -/
theorem ScriptedHeap.dependable :
    Dependable ScriptedHeap.allocator fun out s =>
      ScriptedHeap.Holds out s ∧ s.1.base + s.1.limit ≤ addressLimit where
  toService := by
    refine ScriptedHeap.service.adding id ?_ ?_ ?_
    · intro s size align r t hlow ha
      obtain ⟨hbase, hlimit, _⟩ := ScriptedHeap.alloc_ok ha
      rwa [hbase, hlimit]
    · intro s block size align r t hlow hr
      obtain ⟨hbase, hlimit, _⟩ := ScriptedHeap.resize_ok hr
      rwa [hbase, hlimit]
    · intro s block t hlow hf
      obtain ⟨hbase, hlimit⟩ := ScriptedHeap.free_ok hf
      rwa [hbase, hlimit]
  low hh :=
    (ScriptedHeap.Twin.low (T := .total) ⟨rfl, .inr hh.2, fun _ => rfl⟩ hh.1).resolve_left id
  alloc_returns {out s} size align hh := by
    have htwin : ScriptedHeap.Twin .total s s := ⟨rfl, .inr hh.2, fun _ => rfl⟩
    obtain ⟨r, t, ht, _⟩ := (@ScriptedHeap.alloc_alike .total out s s size align htwin).returns
    exact ⟨r, t, ht⟩
  resize_returns {out s old size} align hh hn hs := by
    have htwin : ScriptedHeap.Twin .total s s := ⟨rfl, .inr hh.2, fun _ => rfl⟩
    obtain ⟨r, t, ht, _⟩ :=
      (@ScriptedHeap.resize_alike .total out s s size align old htwin hn hs).returns
    exact ⟨r, t, ht⟩
  free_returns _ := ⟨_, rfl⟩
  null_returns _ _ := ⟨_, rfl⟩

/-- Five tiers over a fixed allocator, with clients at three depths who ask for nothing, for a bad
alignment and for more than there is, and two over a heap that refuses its second call. -/
theorem returns_of_three_clients :
    (∃ (n : Nat) (scene : Chain.Scene Region), n ≤ 13 ∧ scene.tiers.length = 5 ∧
      Chain.Course Fixed.allocator [Fixed.reset] (fun _ _ => True)
        (⟨64, 4096, 0⟩, ⟨.zero, [], []⟩) n scene.tiers scene.clients scene.state ∧
      Chain.Total Fixed.allocator [Fixed.reset] (fun r => [r]) scene.tiers scene.clients
        scene.state) ∧
    ∃ (n : Nat) (scene : Chain.Scene ScriptedHeap), n ≤ 5 ∧ scene.tiers.length = 2 ∧
      Chain.Course ScriptedHeap.allocator [] (fun _ _ => True)
        (⟨0, 4096, 1024, [1], none, 0, 0, 0, 0, 0, 0⟩, ⟨.zero, [], []⟩) n scene.tiers
        scene.clients scene.state ∧
      Chain.Total ScriptedHeap.allocator [] (fun _ => []) scene.tiers scene.clients
        scene.state := by
  have hfixed : ((⟨[], fun _ => [], ⟨64, 4096, 0⟩, ⟨.zero, [], []⟩⟩ : Chain.Scene Region).play
      Fixed.allocator [.raise (.arena 256), .deed 0 (.alloc 200 16), .raise (.fixed ⟨96, 200⟩),
        .deed 0 (.alloc 8 8), .raise (.general 32), .raise .counting, .deed 0 (.alloc 20 8),
        .deed 3 (.alloc 0 8), .raise (.slabs 64), .deed 0 (.alloc 8 12),
        .deed 0 (.alloc (2 ^ 64 - 1) (2 ^ 63)), .deed 0 (.alloc 8 0), .deed 0 (.free .null)]).map
          (·.tiers.length) = some 5 := by
    decide +kernel
  have hheap : ((⟨[], fun _ => [], ⟨0, 4096, 1024, [1], none, 0, 0, 0, 0, 0, 0⟩,
      ⟨.zero, [], []⟩⟩ : Chain.Scene ScriptedHeap).play ScriptedHeap.allocator
        [.raise (.general 32), .raise (.arena 64), .deed 1 (.alloc 20 8), .deed 0 (.alloc 40 8),
          .deed 0 (.alloc 40 8)]).map (·.tiers.length) = some 2 := by
    decide +kernel
  constructor
  · obtain ⟨scene, hplay, htiers⟩ := Option.map_eq_some_iff.1 hfixed
    obtain ⟨n, hle, hcourse⟩ := Chain.Course.start.play (fun _ d _ => d.asks_anything) hplay
    have hn : n ≤ 13 := by simpa using hle
    exact ⟨n, scene, hn, htiers, hcourse,
      returns_of_disciplined (.fixed (by decide)) (by omega) hcourse⟩
  · obtain ⟨scene, hplay, htiers⟩ := Option.map_eq_some_iff.1 hheap
    obtain ⟨n, hle, hcourse⟩ := Chain.Course.start.play (fun _ d _ => d.asks_anything) hplay
    have hn : n ≤ 5 := by simpa using hle
    have hstart : ScriptedHeap.Holds []
        (⟨0, 4096, 1024, [1], none, 0, 0, 0, 0, 0, 0⟩, ⟨.zero, [], []⟩) :=
      .nil ⟨rfl, rfl, by decide, by decide⟩ (Nat.zero_le _)
    exact ⟨n, scene, hn, htiers, hcourse,
      returns_of_disciplined (.heap ScriptedHeap.dependable ⟨hstart, by decide⟩) (by omega) hcourse⟩

end AllocChain
