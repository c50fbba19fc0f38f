import AllocChain.Proofs.Bump.Arena
import AllocChain.Proofs.Bump.Fixed
import AllocChain.Proofs.Trace

/-!
Which slices a bump region takes for its top block. A region keeps no list of its blocks: it looks
only at where a slice starts and where it ends (`Region.Tops`), and then believes the eight bytes in
front of it. In a region whose sums are words, and for a slice that does not wrap round, the tests
give an answer, and freeing does what that answer says (`freeTop_returns`).
-/

namespace AllocChain

namespace Region

/-- The slice ends where the used part ends, and there is room for a header in front of it. -/
def Tops (r : Region) (mem : Slice) : Prop :=
  r.base + headerSize ≤ mem.addr ∧ mem.addr + mem.len = r.base + r.used

instance (r : Region) (mem : Slice) : Decidable (r.Tops mem) := inferInstanceAs (Decidable (_ ∧ _))

/-- The buffer ends below the last address, and so does a header at its start. -/
structure Addressable (r : Region) : Prop where
  buffer : r.base + r.capacity < wordLimit
  header : r.base + headerSize < wordLimit
  used : r.used ≤ r.capacity

variable {r r' : Region} {m m' : Memory} {mem : Slice} {size align : Nat} {entries : List Entry}

theorem Tops.used_pos (h : r.Tops mem) : 0 < r.used := by
  simp only [Tops, headerSize] at h
  omega

/-- What tops a region is not null. -/
theorem Tops.not_null (h : r.Tops mem) : mem.isNull = false := by
  refine Slice.isNull_eq_false.2 ?_
  simp only [Tops, headerSize] at h
  omega

/-- Of slices that lie apart only one ends where the used part ends. -/
theorem Tops.not_of_apart {mem' : Slice} (h : r.Tops mem) (hd : mem.Disjoint mem')
    (hpos : 0 < mem.len) (hpos' : 0 < mem'.len) : ¬ r.Tops mem' := by
  intro h'
  obtain ⟨_, hend⟩ := h
  obtain ⟨_, hend'⟩ := h'
  refine hd (r.base + r.used - 1) ?_ ?_ <;> simp only [Slice.Has] <;> omega

theorem Tops.not_of_disjoint {e e' : Entry} (h : r.Tops e.block) (hd : e.extent.Disjoint e'.extent)
    (hpos : 0 < e.block.len) (hpos' : 0 < e'.block.len) : ¬ r.Tops e'.block := by
  intro h'
  have hlow : headerSize ≤ e.block.addr := Nat.le_trans (Nat.le_add_left _ _) h.1
  have hlow' : headerSize ≤ e'.block.addr := Nat.le_trans (Nat.le_add_left _ _) h'.1
  have hblocks := hd.mono (Entry.block_inside hlow) (Entry.block_inside hlow')
  exact h.not_of_apart hblocks hpos hpos' h'

/-- A sound region with room for a header has sums that are words. -/
theorem Sound.addressable (h : r.Sound m entries) (hroom : headerSize ≤ r.capacity) :
    r.Addressable :=
  ⟨h.bounded, Nat.lt_of_le_of_lt (Nat.add_le_add_left hroom _) h.bounded, h.used_le⟩

theorem Sound.addressable_of_tops (h : r.Sound m entries) (htop : r.Tops mem) :
    r.Addressable := by
  refine h.addressable ?_
  have hu := h.used_le
  simp only [Tops] at htop
  omega

/-- What lies in the buffer, with room for a header, is owned, and nothing else. -/
theorem owns_returns (h : r.Addressable) (hm : mem.Bounded) :
    r.owns mem = .ok (decide (r.base + headerSize ≤ mem.addr ∧
      mem.addr + mem.len ≤ r.base + r.capacity)) := by
  simp only [owns, Word.add_of_lt h.header, bind, Except.bind]
  by_cases hlow : mem.addr < r.base + headerSize
  · simp [hlow, pure, Except.pure, Nat.not_le.2 hlow]
  · simp [hlow, Slice.stop_of_lt hm, Word.add_of_lt h.buffer, pure, Except.pure, Nat.not_lt.1 hlow]

/-- What tops the region is taken for its top block, and nothing else. -/
theorem isTop_returns (h : r.Addressable) (hm : mem.Bounded) :
    r.isTop mem = .ok (decide (r.Tops mem)) := by
  have hu := h.used
  have htop : r.base + r.used < wordLimit :=
    Nat.lt_of_le_of_lt (Nat.add_le_add_left hu _) h.buffer
  simp only [isTop, owns_returns h hm, bind, Except.bind]
  by_cases howned : r.base + headerSize ≤ mem.addr ∧ mem.addr + mem.len ≤ r.base + r.capacity
  · simp [howned, Tops, Slice.stop_of_lt hm, Word.add_of_lt htop, pure, Except.pure,
      Bool.beq_eq_decide_eq]
  · have hnot : ¬ r.Tops mem := by
      simp only [Tops]
      omega
    simp [howned, hnot, pure, Except.pure]

theorem owns_of_tops (h : r.Addressable) (hm : mem.Bounded) (htop : r.Tops mem) :
    r.owns mem = .ok true := by
  have hreturns := isTop_returns h hm
  rw [decide_eq_true htop] at hreturns
  exact (isTop_eq_true hreturns).1

/-- What tops the region is given back: the region is rewound to what the eight bytes in front of
it say, whatever they are. -/
theorem freeTop_returns (h : r.Addressable) (hm : mem.Bounded) :
    r.freeTop m mem = .ok (if r.Tops mem then
      some { r with used := m.readWord (mem.addr - headerSize) } else none) := by
  simp only [freeTop, isTop_returns h hm, bind, Except.bind]
  by_cases htop : r.Tops mem <;> simp [htop, pure, Except.pure]

/-- What tops a region and is resized there tops it again. -/
theorem resizeInPlace_tops (h : r.Addressable) (hm : mem.Bounded) (htop : r.Tops mem)
    (hr : r.resizeInPlace mem size align = .ok (some r')) :
    r' = { r with used := mem.addr - r.base + size } ∧ r'.Tops ⟨mem.addr, size⟩ := by
  obtain ⟨_, _, ⟨_, _, rfl⟩ | ⟨hnot, _⟩⟩ := resizeInPlace_eq_some hr
  · refine ⟨rfl, ?_⟩
    simp only [Tops] at htop ⊢
    omega
  · rw [isTop_returns h hm, decide_eq_true htop] at hnot
    cases hnot

theorem alloc_tops (h : r.alloc m size align = .ok (some (mem, r', m'))) : r'.Tops mem := by
  obtain ⟨_, _, hlen, hlow, _, rfl, _⟩ := alloc_eq_some h
  simp only [Tops]
  omega

/-- What the memory holds does not matter to a request. -/
theorem alloc_memory (h : r.alloc m size align = .ok (some (mem, r', m'))) (m₁ : Memory) :
    ∃ m₁', r.alloc m₁ size align = .ok (some (mem, r', m₁')) := by
  simp only [alloc] at h ⊢
  obtain ⟨found, hfit, h⟩ := Fault.bind_ok.1 h
  cases found with
  | none => simp [Fault.pure_ok] at h
  | some start =>
    simp only [Fault.pure_ok, Option.some.injEq, Prod.mk.injEq] at h
    obtain ⟨rfl, rfl, _⟩ := h
    exact ⟨_, Fault.bind_ok.2 ⟨_, hfit, rfl⟩⟩

end Region

open Region

/-! ### Freeing -/

namespace Fixed

variable {s : Region × Machine} {mem : Slice}

/-- A buffer with a block in it has room for a header, so the sums computed there are words. -/
theorem Kept.addressable {e : Entry} {es : List Entry} {s : Region × Machine}
    (hk : Kept (e :: es) s) : s.1.Addressable := by
  have hlower := Region.Sound.lower hk e List.mem_cons_self
  have hbound := stacking.bounded hk e List.mem_cons_self
  refine ⟨Region.Sound.bounded hk, ?_, Region.Sound.used_le hk⟩
  simp only [Slice.Bounded] at hbound
  omega

/-- What tops the region rewinds it. -/
theorem free_top (h : s.1.Addressable) (hm : mem.Bounded) (htop : s.1.Tops mem) :
    free mem s = .ok ((), ({ s.1 with used := s.2.memory.readWord (mem.addr - headerSize) },
      s.2)) := by
  simp [free, htop.not_null, freeTop_returns h hm, htop, Except.bind, Except.map]

theorem free_other (h : s.1.Addressable) (hm : mem.Bounded) (htop : ¬ s.1.Tops mem) :
    ∃ es, free mem s = .ok ((), (s.1, s.2.report es)) := by
  obtain ⟨r, m⟩ := s
  cases hn : mem.isNull with
  | true => exact ⟨[], by simp [free, hn, Machine.report_nil]⟩
  | false =>
    refine ⟨[.fixedFreeIgnored mem.addr], ?_⟩
    simp [free, hn, freeTop_returns h hm, htop, Except.bind, Except.map,
      Machine.report]

end Fixed

namespace Arena

variable {β : Type} {B : Allocator β} {s : (Arena × β) × Machine} {mem : Slice} {chunk : Chunk}
  {older : List Chunk}

/-- What tops the newest chunk rewinds it; if that leaves it unused and there are older ones, it
goes back. -/
theorem free_top (hc : s.1.1.chunks = chunk :: older) (h : chunk.region.Addressable)
    (hm : mem.Bounded) (htop : chunk.region.Tops mem) {region : Region}
    (hr : region = { chunk.region with used := s.2.memory.readWord (mem.addr - headerSize) }) :
    free B mem s =
      if region.used = 0 ∧ older ≠ [] then
        release B { chunk with region } (({ s.1.1 with chunks := older }, s.1.2),
          s.2.report [.arenaFree mem.addr region.used])
      else .ok ((), (({ s.1.1 with chunks := { chunk with region } :: older }, s.1.2),
        s.2.report [.arenaFree mem.addr region.used])) := by
  obtain ⟨⟨a, b⟩, m⟩ := s
  subst hr
  simp only at hc
  by_cases hlast : m.memory.readWord (mem.addr - headerSize) = 0 ∧ older ≠ [] <;>
    simp [free, hc, htop.not_null, freeTop_returns h hm, htop, hlast, Except.bind, Except.map,
      Machine.report]

theorem free_other (h : ∀ chunk ∈ s.1.1.chunks.head?, chunk.region.Addressable) (hm : mem.Bounded)
    (htop : ∀ chunk ∈ s.1.1.chunks.head?, ¬ chunk.region.Tops mem) :
    ∃ es, free B mem s = .ok ((), (s.1, s.2.report es)) := by
  obtain ⟨⟨a, b⟩, m⟩ := s
  cases hn : mem.isNull with
  | true => exact ⟨[], by simp [free, hn, Machine.report_nil]⟩
  | false =>
    cases hc : a.chunks with
    | nil => exact ⟨[], by simp [free, hn, hc, Except.bind, Machine.report_nil]⟩
    | cons chunk older =>
      simp only [hc] at h htop
      refine ⟨[.arenaFreeIgnored mem.addr], ?_⟩
      simp [free, hn, hc, freeTop_returns (h chunk rfl) hm, htop chunk rfl,
        Except.bind, Except.map, Machine.report]

/-! ### Chunks with room for a header -/

section

variable {t : (Arena × β) × Machine}

/-- Every chunk has room for a header. -/
def Roomy (s : (Arena × β) × Machine) : Prop :=
  ∀ mem ∈ s.1.1.chunks.map (·.mem), headerSize ≤ mem.len

/-- A new chunk is kept only with a block on it, so it has room for a header. -/
theorem steady_roomy (B : Allocator β) : Steady (allocator B) (adjust B) Roomy where
  resize_eq := rfl
  machine hi := hi
  alloc := by
    rintro s size align r t hi ha
    rcases allocBy_ok ha with ⟨_, _, rfl⟩ | ⟨_, _, hserve⟩
    · exact hi
    cases serve_ok hserve with
    | current hc _ =>
      simp only [Roomy, hc] at hi
      exact hi
    | @fresh _ mem _ _ _ _ _ _ _ _ halloc =>
      obtain ⟨_, _, _, hlow, hend, _, _⟩ := alloc_eq_some halloc
      have hroom : headerSize ≤ mem.len := by
        simp only [Region.ofSlice] at hlow hend
        omega
      exact List.forall_mem_cons.2 ⟨hroom, hi⟩
    | _ => exact hi
  free := by
    rintro s block t hi hf
    cases free_ok hf with
    | ignored => exact hi
    | rewound hc _ _ =>
      simp only [Roomy, hc] at hi
      exact hi
    | emptied hc _ _ _ =>
      simp only [Roomy, hc] at hi
      exact (List.forall_mem_cons.1 hi).2
  adjust := by
    rintro s block size align r t hi _ _ ha
    rcases adjust_ok ha with ⟨chunks, es, hres, _, rfl⟩ | hreloc
    · simp only [Roomy, ← resizeIn_mem hres] at hi
      exact .inl hi
    · exact .inr hreloc

theorem Roomy.sweep (hi : Roomy s) {x : Act (Arena × β) Unit} (hx : x ∈ [reset B, destroy B])
    (h : x s = .ok ((), t)) : Roomy t := by
  rcases List.mem_pair.1 hx with rfl | rfl
  · simp only [Roomy, (reset_ok (.blank B) h trivial).1]
    cases hlast : s.1.1.chunks.getLast? with
    | none => simp
    | some oldest =>
      have hmem := hi oldest.mem (List.mem_map_of_mem (List.mem_of_getLast? hlast))
      simpa using hmem
  · simp [Roomy, (destroy_ok (.blank B) h trivial).1]

theorem roomy_of_run {rule : List (Lease (Arena × β)) → Deed → Prop}
    {live : List (Lease (Arena × β))} {chunkSize : Nat} {b : β} {m : Machine}
    (hrun : Run (allocator B) [reset B, destroy B] rule ((new chunkSize, b), m) live s) :
    Roomy s := by
  refine (steady_roomy B).run ?_ (by simp [Roomy, new]) hrun
  exact fun x hx s t hi hsweep => hi.sweep hx hsweep

variable {fit : Nat → Nat → Slice → Prop} {holds : List Slice → β × Machine → Prop}
  {es : List Entry}

theorem Kept.addressable (hB : Supply B fit holds) (h : Kept holds es s) (hroom : Roomy s) :
    ∀ chunk ∈ s.1.1.chunks, chunk.region.Addressable := by
  intro chunk hc
  obtain ⟨hbuf, _, hsound, _⟩ := h.piled.split (h.apart hB) hc
  have hlen := hroom chunk.mem (List.mem_map_of_mem hc)
  rw [← hbuf] at hlen
  exact hsound.addressable hlen

end

end Arena
end AllocChain
