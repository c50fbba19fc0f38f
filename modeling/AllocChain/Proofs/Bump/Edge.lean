import AllocChain.Proofs.Edges
import AllocChain.Proofs.Bump.Low
import AllocChain.Proofs.Bump.Opening

/-!
Just when a request to a bump allocator breaks off. Rounding an address up faults in one case only:
where the address and the alignment add up to the first number that is no word. A region or a slab
is then `AtEdge`, and whoever puts a block on it breaks off. For the rest an arena or a slab pool
breaks off as the allocator behind does in the one call that is made there
(`Arena.alloc_breaksJust`, `SlabPool.alloc_breaksJust`).
-/

namespace AllocChain

variable {β : Type}

/-- Rounding up faults just where both add up to the first number that is no word. -/
theorem Word.alignUp?_eq_error_iff {v k : Nat} {fault : Fault} :
    alignUp? v (2 ^ k) = .error fault ↔ v + 2 ^ k = wordLimit ∧ fault = .addOverflow := by
  rw [alignUp?_two_pow]
  by_cases hedge : v + 2 ^ k = wordLimit
  · simp [hedge, eq_comm]
  · simp only [hedge, if_false, false_and, iff_false]
    split <;> simp

theorem place_eq_error_iff {base capacity used size k : Nat} {fault : Fault} :
    place base capacity used size (2 ^ k) = .error fault ↔
      base + used + 2 ^ k = wordLimit ∧ fault = .addOverflow := by
  simp only [place]
  cases hlow : Word.add? base used with
  | none =>
    have hfar : base + used + 2 ^ k ≠ wordLimit := by
      have hpos := Nat.two_pow_pos k
      have hnot : ¬ base + used < wordLimit := fun hlt => by
        simp [Word.add?, hlt] at hlow
      omega
    simp [hfar, pure, Except.pure]
  | some lowest =>
    obtain ⟨_, rfl⟩ := Word.add?_eq_some_iff.1 hlow
    rw [← Word.alignUp?_eq_error_iff]
    cases hup : Word.alignUp? (base + used) (2 ^ k) with
    | error fault' => simp [hup, bind, Except.bind]
    | ok found =>
      cases found with
      | none => simp [hup, bind, Except.bind, pure, Except.pure]
      | some aligned =>
        obtain ⟨_, _, hle, _⟩ := Word.alignUp?_eq_some hup
        have hsub := Word.sub_of_le (Nat.le_trans (Nat.le_add_right base used) hle)
        cases hstop : Word.add? (aligned - base) size <;>
          simp [hup, hsub, hstop, bind, Except.bind, pure, Except.pure]

/-! ### One region, one slab -/

namespace Region

variable {r : Region} {m : Memory} {size align k : Nat} {fault : Fault}

/-- The place of the next block cannot be computed: its header ends beyond the words, or where it
ends and the alignment add up to the first number that is no word. -/
def AtEdge (r : Region) (align : Nat) : Prop :=
  wordLimit ≤ r.used + headerSize ∨ r.base + (r.used + headerSize) + align = wordLimit

instance (r : Region) (align : Nat) : Decidable (r.AtEdge align) :=
  inferInstanceAs (Decidable (_ ∨ _))

theorem fit_eq_error_iff :
    r.fit size (2 ^ k) = .error fault ↔ r.AtEdge (2 ^ k) ∧ fault = .addOverflow := by
  simp only [fit, AtEdge]
  by_cases htaken : r.used + headerSize < wordLimit
  · simp only [Word.add_of_lt htaken, bind, Except.bind, place_eq_error_iff, Nat.not_le.2 htaken,
      false_or]
  · simp [Word.add, htaken, Nat.not_lt.1 htaken, bind, Except.bind, eq_comm]

theorem alloc_eq_error_iff :
    r.alloc m size (2 ^ k) = .error fault ↔ r.AtEdge (2 ^ k) ∧ fault = .addOverflow := by
  have hfit : r.fit size (2 ^ k) = .error fault ↔ _ := fit_eq_error_iff
  rw [← hfit, alloc_eq_map]
  cases r.fit size (2 ^ k) <;> simp [Except.map]

end Region

namespace Slab

variable {slab : Slab} {size align k : Nat} {fault : Fault}

/-- Where the taken part ends and the alignment add up to the first number that is no word. -/
def AtEdge (slab : Slab) (align : Nat) : Prop := slab.mem.addr + slab.offset + align = wordLimit

instance (slab : Slab) (align : Nat) : Decidable (slab.AtEdge align) :=
  inferInstanceAs (Decidable (_ = _))

theorem bump_eq_error_iff :
    slab.bump size (2 ^ k) = .error fault ↔ slab.AtEdge (2 ^ k) ∧ fault = .addOverflow := by
  have hplace : place slab.mem.addr slab.mem.len slab.offset size (2 ^ k) = .error fault ↔ _ :=
    place_eq_error_iff
  rw [AtEdge, ← hplace, bump]
  cases place slab.mem.addr slab.mem.len slab.offset size (2 ^ k) with
  | error fault' => simp [bind, Except.bind]
  | ok found => cases found <;> simp [bind, Except.bind, pure, Except.pure]

end Slab

open Region

/-! ### The fixed allocator -/

namespace Fixed

variable {s : Region × Machine} {mem : Slice} {size align k : Nat}

theorem push_met {r r' : Region} {m : Machine} {block : Slice} {memory : Memory}
    (h : r.alloc m.memory size align = .ok (some (block, r', memory))) :
    push size align (r, m) = .ok (.ok block,
      (r', { m with memory, events := m.events ++ [.fixedAlloc size align block.addr] })) := by
  simp [push, h, Except.bind, Except.map]

/-- How a request to a fixed allocator breaks off. -/
def Breaks (size align : Nat) (s : Region × Machine) (brk : Breakdown) : Prop :=
  ValidRequest size align ∧ s.1.AtEdge (normalizeAlign align) ∧ brk = s.2.breakOff .addOverflow

theorem push_breaksJust : (push size (2 ^ k)).BreaksJust
    (fun brk => s.1.AtEdge (2 ^ k) ∧ brk = s.2.breakOff .addOverflow) s := by
  intro brk
  obtain ⟨r, m⟩ := s
  cases halloc : r.alloc m.memory size (2 ^ k) with
  | error fault =>
    obtain ⟨hedge, rfl⟩ := alloc_eq_error_iff.1 halloc
    simp [push, halloc, hedge, Except.bind, Except.map, eq_comm]
  | ok found =>
    have hroom : ¬ r.AtEdge (2 ^ k) := fun hedge => by
      rw [alloc_eq_error_iff.2 ⟨hedge, rfl⟩] at halloc
      cases halloc
    cases found <;> simp [push, halloc, hroom, Except.bind, Except.map]

/-- A valid request breaks off just where the region is at the edge. -/
theorem alloc_breaksJust : (alloc size align).BreaksJust (Breaks size align s) s := by
  refine .allocBy ?_
  rintro ⟨k, hk⟩
  rw [hk]
  exact push_breaksJust

/-- A block can be given back, on top or not. -/
theorem free_returns {out : List Slice} (hh : Stacking.Holds Kept (mem :: out) s) :
    ∃ t, free mem s = .ok ((), t) := by
  obtain ⟨e, es, rfl, _, hk⟩ := stacking.entry_of_holds hh
  have hbound := stacking.bounded hk e List.mem_cons_self
  by_cases htop : s.1.Tops e.block
  · exact ⟨_, free_top hk.addressable hbound htop⟩
  · obtain ⟨_, hfree⟩ := free_other hk.addressable hbound htop
    exact ⟨_, hfree⟩

end Fixed

/-! ### Arenas -/

namespace Arena

/-- How a request breaks off: the newest chunk is at the edge, or, if that is full, the request for
a chunk breaks off behind, or the chunk that is got is at the edge. -/
inductive Breaks (B : Allocator β) (below : Nat → Nat → Breakdown → Prop) (size align : Nat)
    (s : (Arena × β) × Machine) : Breakdown → Prop
  | current {chunk older} : s.1.1.chunks = chunk :: older → chunk.region.AtEdge align →
      Breaks B below size align s (s.2.breakOff .addOverflow)
  | behind {capacity brk} : s.1.1.Full size align →
      s.1.1.chunkCapacity size align = .ok (some capacity) →
      below capacity (max align leastChunkAlign) brk → Breaks B below size align s brk
  | fresh {capacity mem u} : s.1.1.Full size align →
      s.1.1.chunkCapacity size align = .ok (some capacity) →
      B.alloc capacity (max align leastChunkAlign) (s.1.2, s.2) = .ok (.ok mem, u) →
      (Region.ofSlice mem).AtEdge align →
      Breaks B below size align s ((u.2.report
        [.chunkAcquired capacity (max align leastChunkAlign) mem.addr]).breakOff .addOverflow)

variable {B : Allocator β} {s : (Arena × β) × Machine} {a : Arena} {mem block : Slice}
  {chunk : Chunk} {older : List Chunk} {size align capacity k : Nat} {u : β × Machine}

theorem serve_met {region : Region} {memory : Memory} (hc : s.1.1.chunks = chunk :: older)
    (h : chunk.region.alloc s.2.memory size align = .ok (some (block, region, memory))) :
    serve B size align s = .ok (.ok block,
      (({ s.1.1 with chunks := { chunk with region } :: older }, s.1.2),
        { s.2 with memory, events := s.2.events ++ [.arenaAlloc size align block.addr] })) := by
  obtain ⟨⟨a, b⟩, m⟩ := s
  simp only at hc h
  simp [serve, pushOnCurrent, pushOn, hc, h, Except.bind, Except.map]

theorem serve_edge {fault : Fault} (hc : s.1.1.chunks = chunk :: older)
    (h : chunk.region.alloc s.2.memory size align = .error fault) :
    serve B size align s = .error (s.2.breakOff fault) := by
  obtain ⟨⟨a, b⟩, m⟩ := s
  simp only at hc h
  simp [serve, pushOnCurrent, pushOn, hc, h, Except.bind, Except.map]

theorem serve_tooLarge (hfull : s.1.1.Full size align)
    (hcap : s.1.1.chunkCapacity size align = .ok none) :
    serve B size align s = .ok (.error (.outOfMemory size align), s) := by
  have hcurrent : pushOnCurrent size align s = .ok (none, s) := pushOnCurrent_full.2 ⟨hfull, rfl⟩
  obtain ⟨⟨a, b⟩, m⟩ := s
  simp only at hcap
  simp [serve, hcurrent, acquire, hcap, Except.bind, Except.map]

theorem serve_refused {e : AllocError} (hfull : s.1.1.Full size align)
    (hcap : s.1.1.chunkCapacity size align = .ok (some capacity))
    (hcall : B.alloc capacity (max align leastChunkAlign) (s.1.2, s.2) = .ok (.error e, u)) :
    serve B size align s = .ok (.error e, ((s.1.1, u.1), u.2)) := by
  have hcurrent : pushOnCurrent size align s = .ok (none, s) := pushOnCurrent_full.2 ⟨hfull, rfl⟩
  obtain ⟨⟨a, b⟩, m⟩ := s
  simp only at hcap hcall
  simp [serve, hcurrent, acquire, hcap, hcall, Except.bind, Except.map]

theorem serve_broken {brk : Breakdown} (hfull : s.1.1.Full size align)
    (hcap : s.1.1.chunkCapacity size align = .ok (some capacity))
    (hcall : B.alloc capacity (max align leastChunkAlign) (s.1.2, s.2) = .error brk) :
    serve B size align s = .error brk := by
  have hcurrent : pushOnCurrent size align s = .ok (none, s) := pushOnCurrent_full.2 ⟨hfull, rfl⟩
  obtain ⟨⟨a, b⟩, m⟩ := s
  simp only at hcap hcall
  simp [serve, hcurrent, acquire, hcap, hcall, Except.bind, Except.map]

theorem serve_answered {region : Region} {memory : Memory} (hfull : s.1.1.Full size align)
    (hcap : s.1.1.chunkCapacity size align = .ok (some capacity))
    (hcall : B.alloc capacity (max align leastChunkAlign) (s.1.2, s.2) = .ok (.ok mem, u))
    (halloc : (Region.ofSlice mem).alloc u.2.memory size align =
      .ok (some (block, region, memory))) :
    ∃ t, serve B size align s = .ok (.ok block, t) ∧ t.1.2 = u.1 ∧
      t.1.1.chunks.map (·.mem) = mem :: s.1.1.chunks.map (·.mem) := by
  have hcurrent : pushOnCurrent size align s = .ok (none, s) :=
    pushOnCurrent_full.2 ⟨hfull, rfl⟩
  obtain ⟨⟨a, b⟩, m⟩ := s
  simp only at hcap hcall
  simp [serve, hcurrent, acquire, pushOn, Fault.demand, hcap, hcall, halloc, Nat.le_max_left,
    Except.bind, Except.map]

theorem serve_fresh_edge {fault : Fault} (hfull : s.1.1.Full size align)
    (hcap : s.1.1.chunkCapacity size align = .ok (some capacity))
    (hcall : B.alloc capacity (max align leastChunkAlign) (s.1.2, s.2) = .ok (.ok mem, u))
    (halloc : (Region.ofSlice mem).alloc u.2.memory size align = .error fault) :
    serve B size align s = .error ((u.2.report
      [.chunkAcquired capacity (max align leastChunkAlign) mem.addr]).breakOff fault) := by
  have hcurrent : pushOnCurrent size align s = .ok (none, s) :=
    pushOnCurrent_full.2 ⟨hfull, rfl⟩
  obtain ⟨⟨a, b⟩, m⟩ := s
  simp only at hcap hcall
  simp [serve, hcurrent, acquire, pushOn, Fault.demand, hcap, hcall, halloc, Nat.le_max_left,
    Except.bind, Except.map, Machine.report]

variable {below : Nat → Nat → Breakdown → Prop} {holds : List Slice → β × Machine → Prop}
  {out : List Slice}

/-- If the newest chunk has room, a request breaks off at its edge. -/
theorem breaks_of_room {brk : Breakdown} (hroom : ¬ s.1.1.Full size (2 ^ k))
    (h : serve B size (2 ^ k) s = .error brk) : Breaks B below size (2 ^ k) s brk := by
  simp only [Full, not_forall] at hroom
  obtain ⟨chunk, hc, hroom⟩ := hroom
  obtain ⟨older, hchunks⟩ := List.head?_eq_some_iff.1 hc
  cases halloc : chunk.region.alloc s.2.memory size (2 ^ k) with
  | error fault =>
    obtain ⟨hedge, rfl⟩ := alloc_eq_error_iff.1 halloc
    cases (serve_edge hchunks halloc).symm.trans h
    exact .current hchunks hedge
  | ok found =>
    cases found with
    | none => exact absurd ((alloc_none_iff s.2.memory).1 halloc) hroom
    | some found => cases (serve_met hchunks halloc).symm.trans h

/-- If it has none, a request breaks off behind or at the edge of what is got there. -/
theorem breaks_of_full {brk : Breakdown} (hB : Supply B Slice.Answers holds)
    (hh : holds out (s.1.2, s.2))
    (hcall : ∀ size align, (B.alloc size align).BreaksJust (below size align) (s.1.2, s.2))
    (hfull : s.1.1.Full size (2 ^ k)) (h : serve B size (2 ^ k) s = .error brk) :
    Breaks B below size (2 ^ k) s brk := by
  obtain ⟨found, hcap⟩ := chunkCapacity_returns s.1.1 size k
  cases found with
  | none => cases (serve_tooLarge hfull hcap).symm.trans h
  | some capacity =>
    rcases hbehind : B.alloc capacity (max (2 ^ k) leastChunkAlign) (s.1.2, s.2) with
      brk' | ⟨e | mem, u⟩
    · cases (serve_broken hfull hcap hbehind).symm.trans h
      exact .behind hfull hcap ((hcall _ _ _).1 hbehind)
    · cases (serve_refused hfull hcap hbehind).symm.trans h
    cases halloc : (Region.ofSlice mem).alloc u.2.memory size (2 ^ k) with
    | error fault =>
      obtain ⟨hedge, rfl⟩ := alloc_eq_error_iff.1 halloc
      cases (serve_fresh_edge hfull hcap hbehind halloc).symm.trans h
      exact .fresh hfull hcap hbehind hedge
    | ok found =>
      cases found with
      | none =>
        obtain ⟨hans, hnew⟩ := hB.alloc hh hbehind
        exact absurd halloc (chunk_has_room hcap hans (hB.bounded hnew mem List.mem_cons_self) _)
      | some found =>
        obtain ⟨t, hserve, _⟩ := serve_answered hfull hcap hbehind halloc
        cases hserve.symm.trans h

theorem serve_breaksJust (hB : Supply B Slice.Answers holds) (hh : holds out (s.1.2, s.2))
    (hcall : ∀ size align, (B.alloc size align).BreaksJust (below size align) (s.1.2, s.2)) :
    (serve B size (2 ^ k)).BreaksJust (Breaks B below size (2 ^ k) s) s := by
  intro brk
  constructor
  · intro h
    by_cases hfull : s.1.1.Full size (2 ^ k)
    · exact breaks_of_full hB hh hcall hfull h
    · exact breaks_of_room hfull h
  · intro h
    cases h with
    | current hc hedge => exact serve_edge hc (alloc_eq_error_iff.2 ⟨hedge, rfl⟩)
    | behind hfull hcap hbelow => exact serve_broken hfull hcap ((hcall _ _ _).2 hbelow)
    | fresh hfull hcap hbehind hedge =>
      exact serve_fresh_edge hfull hcap hbehind (alloc_eq_error_iff.2 ⟨hedge, rfl⟩)

/-- A valid request breaks off just where its place cannot be computed or its chunk not be got. -/
theorem alloc_breaksJust (hB : Supply B Slice.Answers holds) (hh : holds out (s.1.2, s.2))
    (hcall : ∀ size align, (B.alloc size align).BreaksJust (below size align) (s.1.2, s.2)) :
    (alloc B size align).BreaksJust (fun brk => ValidRequest size align ∧
      Breaks B below size (normalizeAlign align) s brk) s := by
  refine .allocBy ?_
  rintro ⟨k, hk⟩
  rw [hk]
  exact serve_breaksJust hB hh hcall

/-! ### Giving back -/

variable {fit : Nat → Nat → Slice → Prop} {t : (Arena × β) × Machine}

/-- A block that was handed out tops the newest chunk. -/
theorem alloc_tops_newest (ha : alloc B size align s = .ok (.ok block, t)) :
    ∀ chunk ∈ t.1.1.chunks.head?, chunk.region.Tops block := by
  rcases allocBy_ok ha with ⟨_, hbad, _⟩ | ⟨_, _, hserve⟩
  · cases hbad
  intro chunk hc
  cases serve_ok hserve with
  | current _ halloc | fresh _ _ _ halloc =>
    obtain rfl := Option.some.inj hc
    exact alloc_tops halloc

/-- When a block is moved, the new one tops the newest chunk, so giving the old one back is
ignored. -/
theorem free_moved {fresh : Slice} (hB : Supply B fit holds) (hC : Custody B holds)
    (hh : Stacking.Holds (Kept holds) (mem :: out) s)
    (ha : alloc B size align s = .ok (.ok fresh, t)) :
    ∃ u, free B mem (t.1, t.2.mapMemory (·.copyCommon mem fresh)) = .ok ((), u) := by
  have hlending := (stacking hB hC).lending
  have hcopied := hlending.copied hh ha
  have hapart := (List.pairwise_cons.1 (hlending.apart hcopied)).1 fresh List.mem_cons_self
  obtain ⟨es, hp, hk⟩ := hcopied
  have hpos : ∀ {block}, block ∈ mem :: fresh :: out → 0 < block.len := by
    intro block hb
    obtain ⟨e, he, rfl⟩ := List.mem_map.1 (hp.mem_iff.2 hb)
    exact hk.piled.nonempty he
  have htops := alloc_tops_newest ha
  have haddr : ∀ chunk ∈ t.1.1.chunks.head?, chunk.region.Addressable := by
    intro chunk hc
    obtain ⟨_, _, hsound, _⟩ := hk.piled.split (hk.apart hB) (List.mem_of_mem_head? hc)
    exact hsound.addressable_of_tops (htops chunk hc)
  have hother : ∀ chunk ∈ t.1.1.chunks.head?, ¬ chunk.region.Tops mem := fun chunk hc =>
    (htops chunk hc).not_of_apart hapart.symm (hpos (List.mem_cons_of_mem _ List.mem_cons_self))
      (hpos List.mem_cons_self)
  obtain ⟨_, hfree⟩ := free_other (B := B) (s := (t.1, t.2.mapMemory (·.copyCommon mem fresh)))
    haddr (hlending.bounded ⟨es, hp, hk⟩ mem List.mem_cons_self) hother
  exact ⟨_, hfree⟩

theorem release_returns (h : ∃ v, B.free chunk.mem
    (s.1.2, s.2.report [.chunkReleased chunk.mem.len chunk.mem.addr]) = .ok ((), v)) :
    ∃ t, release B chunk s = .ok ((), t) := by
  obtain ⟨v, hv⟩ := h
  exact ⟨_, Act.bind_ok.2 ⟨(), _, Act.emit_ok.2 rfl, Act.below_ok.2 ⟨v, hv, rfl⟩⟩⟩

theorem free_returns (hB : Supply B fit holds)
    (hfree : ∀ {out u block}, holds (block :: out) u → ∃ v, B.free block u = .ok ((), v))
    (hh : Stacking.Holds (Kept holds) (mem :: out) s) (hroom : Roomy s) :
    ∃ t, free B mem s = .ok ((), t) := by
  obtain ⟨es, hp, hk⟩ := hh
  obtain ⟨e, he, rfl⟩ := List.mem_map.1 (hp.mem_iff.2 List.mem_cons_self)
  have hbound := hk.piled.bounded he
  have haddr := hk.addressable hB hroom
  by_cases hnone : ∀ chunk ∈ s.1.1.chunks.head?, ¬ chunk.region.Tops e.block
  · obtain ⟨_, hignored⟩ := free_other (B := B)
      (fun chunk hc => haddr chunk (List.mem_of_mem_head? hc)) hbound hnone
    exact ⟨_, hignored⟩
  · simp only [not_forall, not_not] at hnone
    obtain ⟨chunk, hc, htop⟩ := hnone
    obtain ⟨older, hchunks⟩ := List.head?_eq_some_iff.1 hc
    rw [free_top hchunks (haddr chunk (List.mem_of_mem_head? hc)) hbound htop rfl]
    split
    · have hback := hk.backed
      rw [hchunks] at hback
      exact release_returns (hfree (hB.report (hB.report hback)))
    · exact ⟨_, rfl⟩

end Arena

/-! ### Slab pools -/

namespace SlabPool

/-- How a request breaks off: the newest slab is at the edge, or, if that is full, the request for
a slab breaks off behind, or the slab that is got is at the edge. -/
inductive Breaks (B : Allocator β) (below : Nat → Nat → Breakdown → Prop) (size align : Nat)
    (s : (SlabPool × β) × Machine) : Breakdown → Prop
  | current {slab older} : s.1.1.slabs = slab :: older → slab.AtEdge align →
      Breaks B below size align s (s.2.breakOff .addOverflow)
  | behind {brk} : s.1.1.bumpNewest size align = .ok none →
      below (max size s.1.1.slabSize) (max align leastSlabAlign) brk →
      Breaks B below size align s brk
  | fresh {mem u} : s.1.1.bumpNewest size align = .ok none →
      B.alloc (max size s.1.1.slabSize) (max align leastSlabAlign) (s.1.2, s.2) =
        .ok (.ok mem, u) →
      (Slab.mk mem 0).AtEdge align →
      Breaks B below size align s ((u.2.report [.slabAcquired (max size s.1.1.slabSize)
        (max align leastSlabAlign) mem.addr]).breakOff .addOverflow)

variable {B : Allocator β} {s : (SlabPool × β) × Machine} {p : SlabPool} {mem block : Slice}
  {slab : Slab} {older : List Slab} {size align k : Nat} {u : β × Machine}

theorem serve_newest {slab' : Slab} (hp : s.1.1.slabs = slab :: older)
    (h : slab.bump size align = .ok (some (block, slab'))) :
    serve B size align s = .ok (.ok block, (({ s.1.1 with slabs := slab' :: older }, s.1.2),
      s.2.report [.slabAlloc size align block.addr])) := by
  have hnewest : s.1.1.bumpNewest size align =
      .ok (some (block, { s.1.1 with slabs := slab' :: older })) := by
    simp only [bumpNewest, hp, h, bind, Except.bind, pure, Except.pure]
  obtain ⟨⟨p, b⟩, m⟩ := s
  simp only at hnewest
  simp [serve, hnewest, Machine.report, Except.bind, Except.map]

theorem serve_edge {fault : Fault} (hp : s.1.1.slabs = slab :: older)
    (h : slab.bump size align = .error fault) :
    serve B size align s = .error (s.2.breakOff fault) := by
  have hnewest : s.1.1.bumpNewest size align = .error fault := by
    simp only [bumpNewest, hp, h, bind, Except.bind]
  obtain ⟨⟨p, b⟩, m⟩ := s
  simp only at hnewest
  simp [serve, hnewest, Except.bind, Except.map]

theorem serve_refused {e : AllocError} (hnone : s.1.1.bumpNewest size align = .ok none)
    (hcall : B.alloc (max size s.1.1.slabSize) (max align leastSlabAlign) (s.1.2, s.2) =
      .ok (.error e, u)) :
    serve B size align s = .ok (.error e, ((s.1.1, u.1), u.2)) := by
  obtain ⟨⟨p, b⟩, m⟩ := s
  simp only at hnone hcall
  simp [serve, hnone, hcall, Except.bind, Except.map]

theorem serve_broken {brk : Breakdown} (hnone : s.1.1.bumpNewest size align = .ok none)
    (hcall : B.alloc (max size s.1.1.slabSize) (max align leastSlabAlign) (s.1.2, s.2) =
      .error brk) : serve B size align s = .error brk := by
  obtain ⟨⟨p, b⟩, m⟩ := s
  simp only at hnone hcall
  simp [serve, hnone, hcall, Except.bind, Except.map]

theorem serve_answered {slab : Slab} (hnone : s.1.1.bumpNewest size align = .ok none)
    (hcall : B.alloc (max size s.1.1.slabSize) (max align leastSlabAlign) (s.1.2, s.2) =
      .ok (.ok mem, u)) (hbump : (Slab.mk mem 0).bump size align = .ok (some (block, slab))) :
    ∃ t, serve B size align s = .ok (.ok block, t) ∧ t.1.2 = u.1 ∧
      t.1.1.slabs.map (·.mem) = mem :: s.1.1.slabs.map (·.mem) := by
  have hmem : slab.mem = mem := (Slab.bump_ok hbump).1
  obtain ⟨⟨p, b⟩, m⟩ := s
  simp only at hnone hcall
  simp [serve, hnone, hcall, hbump, hmem, Except.bind, Except.map]

theorem serve_fresh_edge {fault : Fault} (hnone : s.1.1.bumpNewest size align = .ok none)
    (hcall : B.alloc (max size s.1.1.slabSize) (max align leastSlabAlign) (s.1.2, s.2) =
      .ok (.ok mem, u)) (hbump : (Slab.mk mem 0).bump size align = .error fault) :
    serve B size align s = .error ((u.2.report [.slabAcquired (max size s.1.1.slabSize)
      (max align leastSlabAlign) mem.addr]).breakOff fault) := by
  obtain ⟨⟨p, b⟩, m⟩ := s
  simp only at hnone hcall
  simp [serve, hnone, hcall, hbump, Except.bind, Except.map, Machine.report]

variable {below : Nat → Nat → Breakdown → Prop} {holds : List Slice → β × Machine → Prop}
  {out : List Slice}

theorem bumpNewest_error {fault : Fault} (h : p.bumpNewest size align = .error fault) :
    ∃ slab older, p.slabs = slab :: older ∧ slab.bump size align = .error fault := by
  simp only [bumpNewest] at h
  cases hp : p.slabs with
  | nil =>
    simp only [hp] at h
    cases h
  | cons slab older =>
    simp only [hp] at h
    rcases hbump : slab.bump size align with fault' | _ | found <;>
      simp only [hbump, bind, Except.bind] at h <;> cases h
    exact ⟨slab, older, rfl, hbump⟩

/-- If the newest slab has no room, a request breaks off behind or at the edge of what is got
there. -/
theorem breaks_of_full {brk : Breakdown} (hB : Supply B Slice.Answers holds)
    (hh : holds out (s.1.2, s.2))
    (hcall : ∀ size align, (B.alloc size align).BreaksJust (below size align) (s.1.2, s.2))
    (hnone : s.1.1.bumpNewest size (2 ^ k) = .ok none)
    (h : serve B size (2 ^ k) s = .error brk) : Breaks B below size (2 ^ k) s brk := by
  rcases hbehind : B.alloc (max size s.1.1.slabSize) (max (2 ^ k) leastSlabAlign) (s.1.2, s.2) with
    brk' | ⟨e | mem, u⟩
  · cases (serve_broken hnone hbehind).symm.trans h
    exact .behind hnone ((hcall _ _ _).1 hbehind)
  · cases (serve_refused hnone hbehind).symm.trans h
  cases hbump : (Slab.mk mem 0).bump size (2 ^ k) with
  | error fault =>
    obtain ⟨hedge, rfl⟩ := Slab.bump_eq_error_iff.1 hbump
    cases (serve_fresh_edge hnone hbehind hbump).symm.trans h
    exact .fresh hnone hbehind hedge
  | ok found =>
    cases found with
    | none =>
      obtain ⟨hans, hnew⟩ := hB.alloc hh hbehind
      exact absurd hbump (slab_has_room hans (hB.bounded hnew mem List.mem_cons_self))
    | some found =>
      obtain ⟨t, hserve, _⟩ := serve_answered hnone hbehind hbump
      cases hserve.symm.trans h

theorem serve_breaksJust (hB : Supply B Slice.Answers holds) (hh : holds out (s.1.2, s.2))
    (hcall : ∀ size align, (B.alloc size align).BreaksJust (below size align) (s.1.2, s.2)) :
    (serve B size (2 ^ k)).BreaksJust (Breaks B below size (2 ^ k) s) s := by
  intro brk
  constructor
  · intro h
    rcases hnewest : s.1.1.bumpNewest size (2 ^ k) with fault | _ | found
    · obtain ⟨slab, older, hp, hbump⟩ := bumpNewest_error hnewest
      obtain ⟨hedge, rfl⟩ := Slab.bump_eq_error_iff.1 hbump
      cases (serve_edge hp hbump).symm.trans h
      exact .current hp hedge
    · exact breaks_of_full hB hh hcall hnewest h
    · obtain ⟨slab, older, slab', hp, hbump, _⟩ := bumpNewest_ok hnewest
      cases (serve_newest hp hbump).symm.trans h
  · intro h
    cases h with
    | current hp hedge => exact serve_edge hp (Slab.bump_eq_error_iff.2 ⟨hedge, rfl⟩)
    | behind hnone hbelow => exact serve_broken hnone ((hcall _ _ _).2 hbelow)
    | fresh hnone hbehind hedge =>
      exact serve_fresh_edge hnone hbehind (Slab.bump_eq_error_iff.2 ⟨hedge, rfl⟩)

/-- A valid request breaks off just where its place cannot be computed or its slab not be got. -/
theorem alloc_breaksJust (hB : Supply B Slice.Answers holds) (hh : holds out (s.1.2, s.2))
    (hcall : ∀ size align, (B.alloc size align).BreaksJust (below size align) (s.1.2, s.2)) :
    (alloc B size align).BreaksJust (fun brk => ValidRequest size align ∧
      Breaks B below size (normalizeAlign align) s brk) s := by
  refine .allocBy ?_
  rintro ⟨k, hk⟩
  rw [hk]
  exact serve_breaksJust hB hh hcall

end SlabPool
end AllocChain
