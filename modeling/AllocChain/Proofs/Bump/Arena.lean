import AllocChain.Proofs.Bump.Chunks

/-!
What the operations of an arena do, case by case (`Served`, `Freed`), and from that: an arena over
an allocator that hands out disjoint blocks, whatever their length and alignment, stacks its own
blocks in its chunks (`Arena.stacking`).
-/

namespace AllocChain.Arena

open Region Memory

variable {β : Type} {B : Allocator β} {s t : (Arena × β) × Machine} {mem : Slice}
  {size align : Nat} {r : Answer} {chunk : Chunk}

/-- What becomes of the request for a chunk: there is no such size, or a chunk of the size that it
takes is refused behind, or got there, with the alignment that was asked for. -/
inductive Acquired (B : Allocator β) (size align : Nat) (s : (Arena × β) × Machine) :
    Except AllocError Chunk → (Arena × β) × Machine → Prop
  | tooLarge : s.1.1.chunkCapacity size align = .ok none →
      Acquired B size align s (.error (.outOfMemory size align)) s
  | refused {capacity e u} : s.1.1.chunkCapacity size align = .ok (some capacity) →
      B.alloc capacity (max align leastChunkAlign) (s.1.2, s.2) = .ok (.error e, u) →
      Acquired B size align s (.error e) ((s.1.1, u.1), u.2)
  | got {capacity mem u es} : s.1.1.chunkCapacity size align = .ok (some capacity) →
      B.alloc capacity (max align leastChunkAlign) (s.1.2, s.2) = .ok (.ok mem, u) →
      Acquired B size align s (.ok ⟨mem, max align leastChunkAlign, .ofSlice mem⟩)
        ((s.1.1, u.1), u.2.report es)

/-- The newest chunk has no room for the block. -/
def Full (a : Arena) (size align : Nat) : Prop :=
  ∀ chunk ∈ a.chunks.head?, chunk.region.fit size align = .ok none

/-- What becomes of a request: it is served from the newest chunk, or, if that has no room, refused
here or behind, or served from a new chunk; that goes back if it has no room. -/
inductive Served (B : Allocator β) (size align : Nat) (s : (Arena × β) × Machine) :
    Answer → (Arena × β) × Machine → Prop
  | current {chunk older block region memory es} : s.1.1.chunks = chunk :: older →
      chunk.region.alloc s.2.memory size align = .ok (some (block, region, memory)) →
      Served B size align s (.ok block)
        (({ s.1.1 with chunks := { chunk with region } :: older }, s.1.2),
          (s.2.mapMemory fun _ => memory).report es)
  | tooLarge : s.1.1.Full size align → s.1.1.chunkCapacity size align = .ok none →
      Served B size align s (.error (.outOfMemory size align)) s
  | refused {capacity e u} : s.1.1.Full size align →
      s.1.1.chunkCapacity size align = .ok (some capacity) →
      B.alloc capacity (max align leastChunkAlign) (s.1.2, s.2) = .ok (.error e, u) →
      Served B size align s (.error e) ((s.1.1, u.1), u.2)
  | unusable {capacity mem u es v} : s.1.1.Full size align →
      s.1.1.chunkCapacity size align = .ok (some capacity) →
      B.alloc capacity (max align leastChunkAlign) (s.1.2, s.2) = .ok (.ok mem, u) →
      (Region.ofSlice mem).alloc u.2.memory size align = .ok none →
      B.free mem (u.1, u.2.report es) = .ok ((), v) →
      Served B size align s (.error (.outOfMemory size align)) ((s.1.1, v.1), v.2)
  | fresh {capacity mem u block region memory es} : s.1.1.Full size align →
      s.1.1.chunkCapacity size align = .ok (some capacity) →
      B.alloc capacity (max align leastChunkAlign) (s.1.2, s.2) = .ok (.ok mem, u) →
      (Region.ofSlice mem).alloc u.2.memory size align = .ok (some (block, region, memory)) →
      Served B size align s (.ok block)
        (({ s.1.1 with chunks := ⟨mem, max align leastChunkAlign, region⟩ :: s.1.1.chunks }, u.1),
          (u.2.mapMemory fun _ => memory).report es)

/-- What becomes of a block that is given back: it is ignored, or its chunk is rewound, or its
chunk goes back too. -/
inductive Freed (B : Allocator β) (mem : Slice) (s : (Arena × β) × Machine) :
    (Arena × β) × Machine → Prop
  | ignored {es} : Freed B mem s (s.1, s.2.report es)
  | rewound {chunk older region es} : s.1.1.chunks = chunk :: older →
      chunk.region.freeTop s.2.memory mem = .ok (some region) →
      (older ≠ [] → region.used ≠ 0) →
      Freed B mem s (({ s.1.1 with chunks := { chunk with region } :: older }, s.1.2),
        s.2.report es)
  | emptied {chunk older region es u} : s.1.1.chunks = chunk :: older →
      chunk.region.freeTop s.2.memory mem = .ok (some region) → region.used = 0 →
      B.free chunk.mem (s.1.2, s.2.report es) = .ok ((), u) →
      Freed B mem s (({ s.1.1 with chunks := older }, u.1), u.2)

theorem release_ok (h : release B chunk s = .ok ((), t)) :
    ∃ es u, B.free chunk.mem (s.1.2, s.2.report es) = .ok ((), u) ∧ t = ((s.1.1, u.1), u.2) := by
  simp only [release] at h
  obtain ⟨_, _, hemit, hfree⟩ := Act.bind_ok.1 h
  rw [Act.emit_ok.1 hemit, Act.below_ok] at hfree
  obtain ⟨u, hfree, rfl⟩ := hfree
  exact ⟨_, u, hfree, rfl⟩

theorem pushOn_ok {found : Option (Slice × Chunk)}
    (h : pushOn chunk size align s = .ok (found, t)) :
    (found = none ∧ chunk.region.alloc s.2.memory size align = .ok none ∧ t = s) ∨
      ∃ block region memory, found = some (block, { chunk with region }) ∧
        chunk.region.alloc s.2.memory size align = .ok (some (block, region, memory)) ∧
        t = (s.1, s.2.mapMemory fun _ => memory) := by
  simp only [pushOn, Act.bind_ok, Act.memory_ok, Act.lift_ok] at h
  obtain ⟨_, _, ⟨rfl, rfl⟩, placed, _, ⟨halloc, rfl⟩, h⟩ := h
  cases placed with
  | none =>
    obtain ⟨rfl, rfl⟩ := Act.pure_ok.1 h
    exact .inl ⟨rfl, halloc, rfl⟩
  | some placed =>
    obtain ⟨block, region, memory⟩ := placed
    simp only [Act.bind_ok, Act.changeMemory_ok, Act.pure_ok] at h
    obtain ⟨_, _, rfl, rfl, rfl⟩ := h
    exact .inr ⟨block, region, memory, rfl, halloc, rfl⟩

theorem pushOnCurrent_ok {found : Option Slice} (h : pushOnCurrent size align s = .ok (found, t)) :
    (found = none ∧ t = s) ∨ ∃ chunk older block region memory, found = some block ∧
      s.1.1.chunks = chunk :: older ∧
      chunk.region.alloc s.2.memory size align = .ok (some (block, region, memory)) ∧
      t = (({ s.1.1 with chunks := { chunk with region } :: older }, s.1.2),
        s.2.mapMemory fun _ => memory) := by
  simp only [pushOnCurrent] at h
  obtain ⟨a, _, hown, h⟩ := Act.bind_ok.1 h
  obtain ⟨rfl, rfl⟩ := Act.own_ok.1 hown
  cases hc : s.1.1.chunks with
  | nil =>
    simp only [hc, Act.pure_ok] at h
    exact .inl h
  | cons chunk older =>
    simp only [hc] at h
    obtain ⟨placed, u, hpush, h⟩ := Act.bind_ok.1 h
    rcases pushOn_ok hpush with ⟨rfl, _, rfl⟩ | ⟨block, region, memory, rfl, halloc, rfl⟩
    · exact .inl (Act.pure_ok.1 h)
    · simp only [Act.bind_ok, Act.setOwn_ok, Act.pure_ok] at h
      obtain ⟨_, _, rfl, rfl, rfl⟩ := h
      exact .inr ⟨chunk, older, block, region, memory, rfl, rfl, halloc, rfl⟩

theorem pushOnCurrent_full : pushOnCurrent size align s = .ok (none, t) ↔
    s.1.1.Full size align ∧ t = s := by
  obtain ⟨⟨a, b⟩, m⟩ := s
  cases hc : a.chunks with
  | nil => simp [pushOnCurrent, Full, hc, Except.bind, eq_comm]
  | cons chunk older =>
    have hroom : chunk.region.alloc m.memory size align = .ok none ↔
        chunk.region.fit size align = .ok none := alloc_none_iff m.memory
    simp only [Full, hc, List.head?_cons, Option.mem_some_iff, forall_eq', ← hroom]
    cases halloc : chunk.region.alloc m.memory size align with
    | error fault =>
      simp [pushOnCurrent, pushOn, hc, halloc, Except.bind, Except.map]
    | ok placed =>
      cases placed <;> simp [pushOnCurrent, pushOn, hc, halloc, Except.bind, Except.map, eq_comm]

theorem acquire_ok {found : Except AllocError Chunk}
    (h : acquire B size align s = .ok (found, t)) : Acquired B size align s found t := by
  simp only [acquire, Act.bind_ok, Act.own_ok, Act.lift_ok] at h
  obtain ⟨_, _, ⟨rfl, rfl⟩, capacity, _, ⟨hcap, rfl⟩, h⟩ := h
  cases capacity with
  | none =>
    obtain ⟨rfl, rfl⟩ := Act.pure_ok.1 h
    exact .tooLarge hcap
  | some capacity =>
    obtain ⟨answer, _, hcall, h⟩ := Act.bind_ok.1 h
    obtain ⟨u, halloc, rfl⟩ := Act.below_ok.1 hcall
    cases answer with
    | error e =>
      obtain ⟨rfl, rfl⟩ := Act.pure_ok.1 h
      exact .refused hcap halloc
    | ok mem =>
      simp only [Act.bind_ok, Act.emit_ok, Act.pure_ok] at h
      obtain ⟨_, _, rfl, rfl, rfl⟩ := h
      exact .got hcap halloc

/-- A chunk is aligned as was asked, so the assertion about it never fails. -/
theorem demand_acquired (h : acquire B size align s = .ok (.ok chunk, t)) :
    Fault.demand (align ≤ chunk.align) .chunkBelowAlign = .ok () := by
  cases acquire_ok h with
  | got _ _ => exact Fault.demand_of (Nat.le_max_left _ _) _

theorem serve_ok (h : serve B size align s = .ok (r, t)) : Served B size align s r t := by
  simp only [serve] at h
  obtain ⟨found, u, hpush, hcont⟩ := Act.bind_ok.1 h
  cases found with
  | some block =>
    rcases pushOnCurrent_ok hpush with
      ⟨hbad, _⟩ | ⟨chunk, older, _, region, memory, heq, hc, halloc, rfl⟩
    · cases hbad
    cases heq
    simp only [Act.bind_ok, Act.emit_ok, Act.pure_ok] at hcont
    obtain ⟨_, _, rfl, rfl, rfl⟩ := hcont
    exact .current hc halloc
  | none =>
    obtain ⟨hfull, rfl⟩ := pushOnCurrent_full.1 hpush
    obtain ⟨acquired, v, hacq, hcont⟩ := Act.bind_ok.1 hcont
    cases acquire_ok hacq with
    | tooLarge hcap =>
      obtain ⟨rfl, rfl⟩ := Act.pure_ok.1 hcont
      exact .tooLarge hfull hcap
    | refused hcap hcall =>
      obtain ⟨rfl, rfl⟩ := Act.pure_ok.1 hcont
      exact .refused hfull hcap hcall
    | got hcap hcall =>
      obtain ⟨_, _, hdemand, hcont⟩ := Act.bind_ok.1 hcont
      obtain ⟨_, rfl⟩ := Act.lift_ok.1 hdemand
      obtain ⟨placed, x, hpush', hcont⟩ := Act.bind_ok.1 hcont
      rcases pushOn_ok hpush' with ⟨rfl, hnone, rfl⟩ | ⟨block, region, memory, rfl, halloc, rfl⟩
      · simp only [Act.bind_ok, Act.pure_ok] at hcont
        obtain ⟨_, y, hrel, rfl, rfl⟩ := hcont
        obtain ⟨es, z, hfree, rfl⟩ := release_ok hrel
        rw [Machine.report_report] at hfree
        exact .unusable hfull hcap hcall hnone hfree
      · simp only [Act.bind_ok, Act.own_ok, Act.setOwn_ok, Act.emit_ok, Act.pure_ok] at hcont
        obtain ⟨_, _, ⟨rfl, rfl⟩, _, _, rfl, _, _, rfl, rfl, rfl⟩ := hcont
        rw [Machine.mapMemory_report, Machine.report_report]
        exact .fresh hfull hcap hcall halloc

theorem free_ok (h : free B mem s = .ok ((), t)) : Freed B mem s t := by
  have hnothing : Freed B mem s s := by
    have hquiet : Freed B mem s (s.1, s.2.report []) := .ignored
    rwa [Machine.report_nil] at hquiet
  simp only [free] at h
  cases hn : mem.isNull with
  | true =>
    simp only [hn, if_true, Act.pure_ok] at h
    rw [h.2]
    exact hnothing
  | false =>
    simp only [hn, Bool.false_eq_true, if_false, Act.bind_ok, Act.own_ok] at h
    obtain ⟨_, _, ⟨rfl, rfl⟩, hcont⟩ := h
    cases hc : s.1.1.chunks with
    | nil =>
      simp only [hc, Act.pure_ok] at hcont
      rw [hcont.2]
      exact hnothing
    | cons chunk older =>
      simp only [hc, Act.bind_ok, Act.memory_ok, Act.lift_ok] at hcont
      obtain ⟨_, _, ⟨rfl, rfl⟩, freed, _, ⟨hfree, rfl⟩, hcont⟩ := hcont
      cases freed with
      | none =>
        rw [Act.emit_ok.1 hcont]
        exact .ignored
      | some region =>
        simp only [Act.bind_ok, Act.emit_ok] at hcont
        obtain ⟨_, _, rfl, hcont⟩ := hcont
        by_cases hlast : region.used = 0 ∧ older ≠ []
        · rw [if_pos hlast] at hcont
          obtain ⟨_, _, hown, hrel⟩ := Act.bind_ok.1 hcont
          rw [Act.setOwn_ok.1 hown] at hrel
          obtain ⟨es', u, hback, rfl⟩ := release_ok hrel
          rw [Machine.report_report] at hback
          exact .emptied hc hfree hlast.1 hback
        · rw [if_neg hlast] at hcont
          rw [Act.setOwn_ok.1 hcont]
          exact .rewound hc hfree fun hne hzero => hlast ⟨hzero, hne⟩

theorem adjust_ok (h : adjust B mem size align s = .ok (r, t)) :
    (∃ chunks es, resizeIn mem size align s.1.1.chunks = .ok (some chunks) ∧
        r = .ok ⟨mem.addr, size⟩ ∧
        t = (({ s.1.1 with chunks }, s.1.2), s.2.report es)) ∨
      relocate (alloc B) (free B) mem size align s = .ok (r, t) := by
  simp only [adjust, Act.bind_ok, Act.own_ok, Act.lift_ok] at h
  obtain ⟨_, _, ⟨rfl, rfl⟩, resized, _, ⟨hres, rfl⟩, h⟩ := h
  cases resized with
  | none => exact .inr h
  | some chunks =>
    simp only [Act.bind_ok, Act.setOwn_ok, Act.emit_ok, Act.pure_ok] at h
    obtain ⟨_, _, rfl, _, _, rfl, rfl, rfl⟩ := h
    exact .inl ⟨chunks, _, hres, rfl, rfl⟩

/-! ### Chunks that go back together -/

variable {fit : Nat → Nat → Slice → Prop} {holds : List Slice → β × Machine → Prop}

theorem releaseAll_ok (hB : Ledger B fit holds) {chunks : List Chunk} {out : List Slice}
    (h : releaseAll B chunks s = .ok ((), t))
    (hh : holds (chunks.map (·.mem) ++ out) (s.1.2, s.2)) :
    t.1.1 = s.1.1 ∧ holds out (t.1.2, t.2) := by
  induction chunks generalizing s with
  | nil =>
    obtain ⟨_, rfl⟩ := Act.pure_ok.1 h
    exact ⟨rfl, hh⟩
  | cons chunk chunks ih =>
    obtain ⟨_, _, hrel, hrest⟩ := Act.bind_ok.1 h
    obtain ⟨es, u, hfree, rfl⟩ := release_ok hrel
    obtain ⟨hown, hend⟩ := ih hrest (hB.free (hB.report hh) hfree)
    exact ⟨hown, hend⟩

/-- A reset without chunks does nothing; any other keeps the oldest chunk, unused, and gives back
those that are newer. -/
theorem reset_shape (h : reset B s = .ok ((), t)) :
    s.1.1.chunks = [] ∧ t = s ∨ ∃ newer oldest, s.1.1.chunks = newer ++ [oldest] ∧
      releaseAll B newer (({ s.1.1 with
        chunks := [{ oldest with region := oldest.region.reset }] }, s.1.2), s.2) =
      .ok ((), t) := by
  simp only [reset, Act.bind_ok, Act.own_ok] at h
  obtain ⟨_, _, ⟨rfl, rfl⟩, h⟩ := h
  cases hlast : s.1.1.chunks.getLast? with
  | none =>
    simp only [hlast, Act.pure_ok] at h
    exact .inl ⟨List.getLast?_eq_none_iff.1 hlast, h.2⟩
  | some oldest =>
    obtain ⟨newer, hs⟩ := List.getLast?_eq_some_iff.1 hlast
    simp only [hlast, Act.bind_ok, Act.setOwn_ok] at h
    obtain ⟨_, _, rfl, h⟩ := h
    rw [hs, List.dropLast_concat] at h
    exact .inr ⟨newer, oldest, hs, h⟩

/-- A reset keeps the oldest chunk, unused, and gives all others back. -/
theorem reset_ok (hB : Ledger B fit holds) (h : reset B s = .ok ((), t))
    (hh : holds (s.1.1.chunks.map (·.mem)) (s.1.2, s.2)) :
    t.1.1 = { s.1.1 with chunks := s.1.1.chunks.getLast?.toList.map fun oldest =>
        { oldest with region := oldest.region.reset } } ∧
      holds (t.1.1.chunks.map (·.mem)) (t.1.2, t.2) := by
  rcases reset_shape h with ⟨hnil, rfl⟩ | ⟨newer, oldest, hs, hrel⟩
  · refine ⟨?_, hh⟩
    obtain ⟨⟨⟨chunkSize, chunks⟩, b⟩, m⟩ := t
    obtain rfl : chunks = [] := hnil
    rfl
  · rw [hs, List.map_append] at hh
    obtain ⟨hown, hend⟩ := releaseAll_ok hB hrel hh
    rw [hown, hs, List.getLast?_concat]
    exact ⟨rfl, hend⟩

/-- Destroying an arena gives all its chunks back, the newest first. -/
theorem destroy_shape (h : destroy B s = .ok ((), t)) :
    ∃ es, releaseAll B s.1.1.chunks (({ s.1.1 with chunks := [] }, s.1.2), s.2.report es) =
      .ok ((), t) := by
  simp only [destroy, Act.bind_ok, Act.own_ok, Act.setOwn_ok] at h
  obtain ⟨_, _, ⟨rfl, rfl⟩, _, _, rfl, h⟩ := h
  by_cases hany : s.1.1.chunks ≠ []
  · rw [if_pos hany] at h
    simp only [Act.bind_ok, Act.emit_ok] at h
    obtain ⟨_, _, rfl, h⟩ := h
    exact ⟨_, h⟩
  · rw [if_neg hany] at h
    refine ⟨[], ?_⟩
    rw [Machine.report_nil]
    exact h

/-- A destroyed arena has no chunks, and nothing is left of them on the ledger. -/
theorem destroy_ok (hB : Ledger B fit holds) (h : destroy B s = .ok ((), t))
    (hh : holds (s.1.1.chunks.map (·.mem)) (s.1.2, s.2)) :
    t.1.1 = { s.1.1 with chunks := [] } ∧ holds [] (t.1.2, t.2) := by
  obtain ⟨es, hrel⟩ := destroy_shape h
  rw [← List.append_nil (List.map _ _)] at hh
  exact releaseAll_ok hB hrel (hB.report hh)

/-! ### The blocks of an arena -/

/-- The arena holds its chunks, and the entries lie in them. -/
structure Kept (holds : List Slice → β × Machine → Prop) (es : List Entry)
    (s : (Arena × β) × Machine) : Prop where
  backed : holds (s.1.1.chunks.map (·.mem)) (s.1.2, s.2)
  piled : Piled s.2.memory s.1.1.chunks es

variable {es : List Entry} {e : Entry}

theorem Kept.new {b : β} {m : Machine} (chunkSize : Nat) (h : holds [] (b, m)) :
    Kept holds [] ((Arena.new chunkSize, b), m) := ⟨h, .nil⟩

theorem Kept.apart (hB : Supply B fit holds) (h : Kept holds es s) : Apart s.1.1.chunks :=
  hB.apart h.backed

theorem Kept.writtenIn (h : Kept holds es s) {m m' : Memory}
    (hw : WrittenIn (es.map (·.block)) m m') : WrittenIn (s.1.1.chunks.map (·.mem)) m m' := by
  refine hw.inside ?_
  intro block hb
  obtain ⟨e, he, rfl⟩ := List.mem_map.1 hb
  obtain ⟨c, hc, hin⟩ := h.piled.inside he
  exact ⟨c.mem, List.mem_map_of_mem hc, (Entry.block_inside (h.piled.lower he)).trans hin⟩

/-- What leaves the chunks alone leaves the blocks alone, and the other way round keeps them. -/
theorem Kept.agreesOn (h : Kept holds es s) {m : Memory}
    (ha : AgreesOn (s.1.1.chunks.map (·.mem)) s.2.memory m) :
    AgreesOn (es.map Entry.extent) s.2.memory m := by
  refine ha.inside ?_
  intro extent hmem
  obtain ⟨e, he, rfl⟩ := List.mem_map.1 hmem
  obtain ⟨c, hc, hin⟩ := h.piled.inside he
  exact ⟨c.mem, List.mem_map_of_mem hc, hin⟩

/-- A new chunk has no address in common with those that there are. -/
theorem Kept.new_apart (hB : Supply B fit holds) (h : Kept holds es s) {u : β × Machine}
    (hcall : B.alloc size align (s.1.2, s.2) = .ok (.ok mem, u)) {addr : Nat}
    (hhas : mem.Has addr) : ∀ region ∈ s.1.1.chunks.map (·.region), ¬ region.buffer.Has addr := by
  have hapart : Apart (⟨mem, align, .ofSlice mem⟩ :: s.1.1.chunks) :=
    hB.apart (hB.alloc h.backed hcall).2
  intro region hmem hbad
  obtain ⟨c, hc, rfl⟩ := List.mem_map.1 hmem
  rw [(h.piled.split (h.apart hB) hc).1] at hbad
  exact hapart.head hc addr hhas hbad

/-- A request adds an entry that says how much was used where it lies. -/
theorem Kept.alloc (hB : Supply B fit holds) (hC : Custody B holds) (h : Kept holds es s)
    {block : Slice} (ha : Arena.alloc B size align s = .ok (.ok block, t)) :
    block.len = size ∧ normalizeAlign align ∣ block.addr ∧
      Kept holds (⟨block, usedAt (s.1.1.chunks.map (·.region)) block.addr⟩ :: es) t ∧
      AgreesOn (es.map Entry.extent) s.2.memory t.2.memory := by
  rcases allocBy_ok ha with ⟨_, hbad, _⟩ | ⟨hs, _, hserve⟩
  · cases hbad
  cases serve_ok hserve with
  | @current chunk older block region memory _ hc halloc =>
    obtain ⟨_, hdvd, hlen, hlow, hend, _, _⟩ := alloc_eq_some halloc
    have hpiled := h.piled
    have hapart := h.apart hB
    have hback := h.backed
    rw [hc] at hpiled hapart hback
    cases hpiled with
    | @cons _ _ top rest _ hbuf _ hsound hold hsplit =>
    obtain ⟨hnew, hagree, hwritten⟩ := hold.push hapart hbuf hsound hsplit hs halloc
    have hin : chunk.region.buffer.Has block.addr := by
      simp only [buffer, Slice.Has]
      omega
    have hused : usedAt (s.1.1.chunks.map (·.region)) block.addr = chunk.region.used := by
      simp [usedAt, hc, hin]
    rw [hused]
    exact ⟨hlen, hdvd, ⟨hB.write hback (hwritten.mem List.mem_cons_self), hnew⟩, hagree⟩
  | @fresh capacity mem u block region memory _ _ _ hcall halloc =>
    obtain ⟨_, hdvd, hlen, hlow, hend, _, _⟩ := alloc_eq_some halloc
    obtain ⟨_, hback⟩ := hB.alloc h.backed hcall
    have hapart : Apart (⟨mem, max (normalizeAlign align) leastChunkAlign, .ofSlice mem⟩ ::
      s.1.1.chunks) := hB.apart hback
    have hsame := h.agreesOn (hC.alloc h.backed hcall)
    have hbounded := hB.bounded hback mem List.mem_cons_self
    have hpiled := h.piled.memory (Entry.agreesOn_headers_of_extents hsame)
    have hempty : (Region.ofSlice mem).Sound u.2.memory [] := sound_empty hbounded (Nat.zero_le _)
    obtain ⟨hnew, hagree, hwritten⟩ :=
      hpiled.push hapart rfl hempty (.refl es) hs halloc
    have hhas : mem.Has block.addr := by
      simp only [Region.ofSlice] at hlow hend
      simp only [Slice.Has]
      omega
    have hused : usedAt (s.1.1.chunks.map (·.region)) block.addr = 0 :=
      usedAt_eq_zero (h.new_apart hB hcall hhas)
    rw [hused]
    exact ⟨hlen, hdvd, ⟨hB.write hback (hwritten.mem List.mem_cons_self), hnew⟩,
      hsame.trans hagree⟩

/-- A refused request may have tried a chunk, which is gone again. -/
theorem Kept.alloc_refused (hB : Supply B fit holds) (hC : Custody B holds) (h : Kept holds es s)
    {err : AllocError} (ha : Arena.alloc B size align s = .ok (.error err, t)) :
    Kept holds es t ∧ AgreesOn (es.map Entry.extent) s.2.memory t.2.memory := by
  rcases allocBy_ok ha with ⟨_, _, rfl⟩ | ⟨_, _, hserve⟩
  · exact ⟨h, .refl _ _⟩
  cases serve_ok hserve with
  | tooLarge _ _ => exact ⟨h, .refl _ _⟩
  | refused _ _ hcall =>
    have hsame := h.agreesOn (hC.alloc h.backed hcall)
    exact ⟨⟨hB.alloc_refused h.backed hcall,
      h.piled.memory (Entry.agreesOn_headers_of_extents hsame)⟩, hsame⟩
  | unusable _ _ hcall _ hback =>
    obtain ⟨_, hheld⟩ := hB.alloc h.backed hcall
    have hfreed := hC.free (hB.report hheld) hback
    have hsame := (hC.alloc h.backed hcall).trans hfreed
    exact ⟨⟨hB.free (hB.report hheld) hback,
      h.piled.memory (Entry.agreesOn_headers_of_extents (h.agreesOn hsame))⟩, h.agreesOn hsame⟩

/-- A block that is given back loses its entry; so does a chunk that is then unused. -/
theorem Kept.free (hB : Supply B fit holds) (hC : Custody B holds) (h : Kept holds (e :: es) s)
    (hf : Arena.free B e.block s = .ok ((), t)) :
    Kept holds es t ∧ AgreesOn (es.map Entry.extent) s.2.memory t.2.memory := by
  cases free_ok hf with
  | ignored => exact ⟨⟨hB.report h.backed, h.piled.forget⟩, .refl _ _⟩
  | @rewound chunk older region _ hc hfree hused =>
    have hpiled := h.piled
    have hapart := h.apart hB
    have hback := h.backed
    rw [hc] at hpiled hapart hback
    exact ⟨⟨hB.report hback, (hpiled.pop hapart hfree).2 hused⟩, .refl _ _⟩
  | @emptied chunk older region _ u hc hfree hzero hcall =>
    have hpiled := h.piled
    have hapart := h.apart hB
    have hback := h.backed
    rw [hc] at hpiled hapart hback
    have hrest := (hpiled.pop hapart hfree).1 hzero
    have hsame : AgreesOn (es.map Entry.extent) s.2.memory u.2.memory := by
      refine (hC.free (hB.report hback) hcall).inside ?_
      intro extent hmem
      obtain ⟨e', he', rfl⟩ := List.mem_map.1 hmem
      obtain ⟨c, hc', hin⟩ := hrest.inside he'
      exact ⟨c.mem, List.mem_map_of_mem hc', hin⟩
    exact ⟨⟨hB.free (hB.report hback) hcall,
      hrest.memory (Entry.agreesOn_headers_of_extents hsame)⟩, hsame⟩

theorem Kept.reset (hB : Supply B fit holds) (h : Kept holds es s)
    (hr : Arena.reset B s = .ok ((), t)) : Kept holds [] t := by
  obtain ⟨hown, hback⟩ := reset_ok hB.toLedger hr h.backed
  refine ⟨hback, ?_⟩
  rw [hown]
  cases hlast : s.1.1.chunks.getLast? with
  | none => exact .nil
  | some oldest =>
    obtain ⟨hbuf, _, hsound, _⟩ := h.piled.split (h.apart hB) (List.mem_of_getLast? hlast)
    exact .cons hbuf (fun hne => absurd rfl hne) (sound_empty hsound.bounded (Nat.zero_le _)) .nil
      .nil

theorem Kept.destroy (hB : Supply B fit holds) (h : Kept holds es s)
    (hd : Arena.destroy B s = .ok ((), t)) : Kept holds [] t := by
  obtain ⟨hown, hback⟩ := destroy_ok hB.toLedger hd h.backed
  rw [← List.map_nil (f := fun c : Chunk => c.mem)] at hback
  have hnil : t.1.1.chunks = [] := by rw [hown]
  refine ⟨hnil ▸ hback, hnil ▸ .nil⟩

/-- An arena stacks its blocks in its chunks. -/
theorem stacking (hB : Supply B fit holds) (hC : Custody B holds) :
    Stacking (allocator B) (adjust B) (fun l => l.1.chunks.map (·.region)) (Kept holds) where
  resize_eq := rfl
  alloc_zero {align s r t} h := by
    change allocBy (serve B) 0 align s = .ok (r, t) at h
    exact allocBy_zero h
  free_null {block s t} hn hf := by
    change Arena.free B block s = .ok ((), t) at hf
    simp only [Arena.free, hn, if_true, Act.pure_ok] at hf
    exact hf.2
  perm hp hk := ⟨hk.backed, hk.piled.perm hp⟩
  nonempty hk _ he := hk.piled.nonempty he
  lower hk _ he := hk.piled.lower he
  bounded hk _ he := hk.piled.bounded he
  apart hk := hk.piled.apart (hk.apart hB)
  write hk hw := ⟨hB.write hk.backed (hk.writtenIn hw),
    hk.piled.memory (agreesOn_headers (fun _ he => hk.piled.lower he)
      (hk.piled.apart (hk.apart hB)) hw)⟩
  alloc hk ha := hk.alloc hB hC ha
  alloc_refused hk ha := hk.alloc_refused hB hC ha
  free hk hf := hk.free hB hC hf
  adjust := by
    rintro es s e size align r t hk hs hpow ha
    rcases adjust_ok ha with ⟨chunks, events, hres, rfl, rfl⟩ | hreloc
    · obtain ⟨hdvd, hpiled⟩ := hk.piled.regrow (hk.apart hB) hs hpow hres
      refine .inl ⟨rfl, hdvd, ⟨?_, hpiled⟩, rfl⟩
      have hback : holds (s.1.1.chunks.map (·.mem)) (s.1.2, s.2.report events) :=
        hB.report hk.backed
      rw [← resizeIn_mem hres] at hback
      exact hback
    · exact .inr hreloc

end AllocChain.Arena
