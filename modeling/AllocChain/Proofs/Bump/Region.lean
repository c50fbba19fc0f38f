import AllocChain.Bump.Region
import AllocChain.Proofs.Bump.Place
import AllocChain.Proofs.Contract

/-!
A bump region and the blocks that lie in it. An entry is a block together with how much of the
region was used before it was made, which is what its header has to say. `Region.Sound` is the
invariant: blocks and headers lie apart in the used part, every header still holds what it was
given, and that is not below the end of any block further down. Each operation of the region keeps
it (`Sound.push`, `Sound.pop`, `Sound.regrow`).
-/

namespace AllocChain.Region

open Word Memory

/-- A block, and the bytes that were used before it was made. -/
structure Entry where
  block : Slice
  below : Nat

namespace Entry

/-- The block with its header in front. -/
def extent (e : Entry) : Slice := ⟨e.block.addr - headerSize, e.block.len + headerSize⟩

/-- The eight bytes in front of the block. -/
def header (e : Entry) : Slice := ⟨e.block.addr - headerSize, headerSize⟩

theorem header_inside (e : Entry) : e.header.Inside e.extent := by
  simp only [Slice.Inside, header, extent]
  omega

theorem agreesOn_headers_of_extents {es : List Entry} {m m' : Memory}
    (h : AgreesOn (es.map extent) m m') : AgreesOn (es.map header) m m' := by
  refine h.inside ?_
  intro slice hmem
  obtain ⟨e, he, rfl⟩ := List.mem_map.1 hmem
  exact ⟨e.extent, List.mem_map_of_mem he, e.header_inside⟩

end Entry

/-- The buffer of the region. -/
def buffer (r : Region) : Slice := ⟨r.base, r.capacity⟩

/-- The entries lie in the region, apart from each other, with their headers in front. -/
structure Sound (r : Region) (m : Memory) (entries : List Entry) : Prop where
  bounded : r.base + r.capacity < wordLimit
  used_le : r.used ≤ r.capacity
  nonempty : ∀ e ∈ entries, 0 < e.block.len
  lower : ∀ e ∈ entries, r.base + e.below + headerSize ≤ e.block.addr
  upper : ∀ e ∈ entries, e.block.addr + e.block.len ≤ r.base + r.used
  apart : entries.Pairwise fun e e' => e.extent.Disjoint e'.extent
  header : ∀ e ∈ entries, m.readWord (e.block.addr - headerSize) = e.below
  above : ∀ e ∈ entries, ∀ e' ∈ entries, e'.block.addr < e.block.addr →
    e'.block.addr + e'.block.len ≤ r.base + e.below

variable {r r' : Region} {m m' : Memory} {entries entries' : List Entry} {e : Entry}

/-! ### Lists of entries -/

theorem Sound.perm (h : Sound r m entries) (hp : entries.Perm entries') : Sound r m entries' where
  bounded := h.bounded
  used_le := h.used_le
  nonempty e he := h.nonempty e (hp.mem_iff.2 he)
  lower e he := h.lower e (hp.mem_iff.2 he)
  upper e he := h.upper e (hp.mem_iff.2 he)
  apart := (hp.pairwise_iff fun hd => hd.symm).1 h.apart
  header e he := h.header e (hp.mem_iff.2 he)
  above e he e' he' := h.above e (hp.mem_iff.2 he) e' (hp.mem_iff.2 he')

theorem Sound.forget (h : Sound r m (e :: entries)) : Sound r m entries where
  bounded := h.bounded
  used_le := h.used_le
  nonempty e' he := h.nonempty e' (List.mem_cons_of_mem _ he)
  lower e' he := h.lower e' (List.mem_cons_of_mem _ he)
  upper e' he := h.upper e' (List.mem_cons_of_mem _ he)
  apart := (List.pairwise_cons.1 h.apart).2
  header e' he := h.header e' (List.mem_cons_of_mem _ he)
  above e' he e'' he' := h.above e' (List.mem_cons_of_mem _ he) e'' (List.mem_cons_of_mem _ he')

/-- The invariant looks at the headers only. -/
theorem Sound.memory (h : Sound r m entries) (ha : AgreesOn (entries.map Entry.header) m m') :
    Sound r m' entries := by
  refine { h with header := ?_ }
  intro e he
  rw [← h.header e he]
  refine readBytes_congr 8 _ fun a hle hlt => ha e.header (List.mem_map_of_mem he) a ⟨hle, ?_⟩
  simpa [Entry.header, headerSize] using hlt

theorem sound_empty (h : r.base + r.capacity < wordLimit) (hu : r.used ≤ r.capacity) :
    Sound r m [] where
  bounded := h
  used_le := hu
  nonempty := by simp
  lower := by simp
  upper := by simp
  apart := .nil
  header := by simp
  above := by simp

/-- A block with its header lies in the buffer. -/
theorem Sound.extent_inside (h : Sound r m entries) (he : e ∈ entries) :
    e.extent.Inside r.buffer := by
  have h1 := h.lower e he
  have h2 := h.upper e he
  have h3 := h.used_le
  simp only [Slice.Inside, Entry.extent, buffer]
  omega

theorem Sound.used_pos (h : Sound r m entries) (he : e ∈ entries) : 0 < r.used := by
  have h1 := h.lower e he
  have h2 := h.upper e he
  have h3 := h.nonempty e he
  omega

/-- Two blocks of the region, one of them further down than the other. -/
theorem Sound.below_or_above (h : Sound r m (e :: entries)) {e' : Entry} (he' : e' ∈ entries) :
    e'.block.addr + e'.block.len + headerSize ≤ e.block.addr ∨
      e.block.addr + e.block.len + headerSize ≤ e'.block.addr := by
  have hd := (List.pairwise_cons.1 h.apart).1 e' he'
  have h1 := h.lower e List.mem_cons_self
  have h2 := h.lower e' (List.mem_cons_of_mem _ he')
  have h3 := h.nonempty e List.mem_cons_self
  have h4 := h.nonempty e' (List.mem_cons_of_mem _ he')
  rw [Slice.disjoint_iff (Nat.add_pos_left h3 _) (Nat.add_pos_left h4 _)] at hd
  simp only [Entry.extent, headerSize] at *
  omega

/-! ### What the operations do -/

/-- Whether a region has room does not depend on what the memory holds. -/
theorem alloc_none_iff {size align : Nat} (m : Memory) :
    r.alloc m size align = .ok none ↔ r.fit size align = .ok none := by
  simp only [alloc]
  cases hfit : r.fit size align with
  | error fault => simp [bind, Except.bind]
  | ok found => cases found <;> simp [bind, Except.bind, pure, Except.pure]

/-- What a new block is and what its making changes. -/
theorem alloc_eq_some {size align : Nat} {block : Slice}
    (h : r.alloc m size align = .ok (some (block, r', m'))) :
    (∃ k, align = 2 ^ k) ∧ align ∣ block.addr ∧ block.len = size ∧
      r.base + r.used + headerSize ≤ block.addr ∧ block.addr + size ≤ r.base + r.capacity ∧
      r' = { r with used := block.addr - r.base + size } ∧
      m' = m.writeWord (block.addr - headerSize) r.used := by
  simp only [alloc] at h
  obtain ⟨found, hfit, h⟩ := Fault.bind_ok.1 h
  cases found with
  | none => simp [Fault.pure_ok] at h
  | some start =>
    simp only [Fault.pure_ok, Option.some.injEq, Prod.mk.injEq] at h
    obtain ⟨rfl, rfl, rfl⟩ := h
    simp only [fit] at hfit
    obtain ⟨taken, hadd, hplace⟩ := Fault.bind_ok.1 hfit
    obtain ⟨_, rfl⟩ := add_eq_ok_iff.1 hadd
    obtain ⟨hpow, hdvd, hle, hend⟩ := place_eq_some hplace
    refine ⟨hpow, hdvd, rfl, by simp only; omega, by simp only; omega, ?_, rfl⟩
    simp only [Nat.add_sub_cancel_left]

/-- A slice that the region owns lies in its buffer, with room for a header. -/
theorem owns_eq_true {mem : Slice} (h : r.owns mem = .ok true) :
    r.base + headerSize ≤ mem.addr ∧ mem.addr + mem.len ≤ r.base + r.capacity := by
  simp only [owns] at h
  obtain ⟨lowest, hlow, h⟩ := Fault.bind_ok.1 h
  obtain ⟨_, rfl⟩ := add_eq_ok_iff.1 hlow
  split at h
  · simp [Fault.pure_ok] at h
  · obtain ⟨stop, hstop, h⟩ := Fault.bind_ok.1 h
    obtain ⟨limit, hlim, h⟩ := Fault.bind_ok.1 h
    obtain ⟨_, rfl⟩ := add_eq_ok_iff.1 hstop
    obtain ⟨_, rfl⟩ := add_eq_ok_iff.1 hlim
    rw [Fault.pure_ok, eq_comm, decide_eq_true_iff] at h
    omega

theorem owns_eq_false {mem : Slice} (h : r.owns mem = .ok false) :
    mem.addr < r.base + headerSize ∨ r.base + r.capacity < mem.addr + mem.len := by
  simp only [owns] at h
  obtain ⟨lowest, hlow, h⟩ := Fault.bind_ok.1 h
  obtain ⟨_, rfl⟩ := add_eq_ok_iff.1 hlow
  split at h
  · exact .inl ‹_›
  · obtain ⟨stop, hstop, h⟩ := Fault.bind_ok.1 h
    obtain ⟨limit, hlim, h⟩ := Fault.bind_ok.1 h
    obtain ⟨_, rfl⟩ := add_eq_ok_iff.1 hstop
    obtain ⟨_, rfl⟩ := add_eq_ok_iff.1 hlim
    rw [Fault.pure_ok, eq_comm, decide_eq_false_iff_not] at h
    omega

theorem isTop_eq_true {mem : Slice} (h : r.isTop mem = .ok true) :
    r.owns mem = .ok true ∧ mem.addr + mem.len = r.base + r.used := by
  simp only [isTop] at h
  obtain ⟨owned, howns, h⟩ := Fault.bind_ok.1 h
  cases owned with
  | false => simp [Fault.pure_ok] at h
  | true =>
    simp only [Bool.not_true, Bool.false_eq_true, if_false] at h
    obtain ⟨stop, hstop, h⟩ := Fault.bind_ok.1 h
    obtain ⟨top, htop, h⟩ := Fault.bind_ok.1 h
    obtain ⟨_, rfl⟩ := add_eq_ok_iff.1 hstop
    obtain ⟨_, rfl⟩ := add_eq_ok_iff.1 htop
    rw [Fault.pure_ok, eq_comm, beq_iff_eq] at h
    exact ⟨howns, h⟩

/-- What is given back is the top block, and the region is rewound to what its header says. -/
theorem freeTop_eq_some {mem : Slice} (h : r.freeTop m mem = .ok (some r')) :
    r.isTop mem = .ok true ∧ r' = { r with used := m.readWord (mem.addr - headerSize) } := by
  simp only [freeTop] at h
  obtain ⟨top, htop, h⟩ := Fault.bind_ok.1 h
  cases top with
  | false => simp [Fault.pure_ok] at h
  | true =>
    simp only [Bool.not_true, Bool.false_eq_true, if_false, Fault.pure_ok, Option.some.injEq] at h
    exact ⟨htop, h⟩

/-- A block that is resized in place is aligned, and either it is the top block and ends within the
buffer, or it is another one and does not grow. -/
theorem resizeInPlace_eq_some {mem : Slice} {size align : Nat}
    (h : r.resizeInPlace mem size align = .ok (some r')) :
    r.owns mem = .ok true ∧ Word.isAligned mem.addr align = .ok true ∧
      (r.isTop mem = .ok true ∧ mem.addr + size ≤ r.base + r.capacity ∧
          r' = { r with used := mem.addr - r.base + size } ∨
        r.isTop mem = .ok false ∧ size ≤ mem.len ∧ r' = r) := by
  simp only [resizeInPlace] at h
  obtain ⟨owned, howns, h⟩ := Fault.bind_ok.1 h
  cases owned with
  | false => simp [Fault.pure_ok] at h
  | true =>
    simp only [Bool.not_true, Bool.false_eq_true, if_false] at h
    obtain ⟨aligned, halign, h⟩ := Fault.bind_ok.1 h
    cases aligned with
    | false => simp [Fault.pure_ok] at h
    | true =>
      simp only [Bool.not_true, Bool.false_eq_true, if_false] at h
      obtain ⟨start, hstart, h⟩ := Fault.bind_ok.1 h
      obtain ⟨hle, rfl⟩ := sub_eq_ok_iff.1 hstart
      obtain ⟨top, htop, h⟩ := Fault.bind_ok.1 h
      refine ⟨howns, halign, ?_⟩
      cases top with
      | false =>
        simp only [Bool.false_eq_true, if_false, Fault.pure_ok] at h
        split at h
        · cases h
          exact .inr ⟨htop, ‹_›, rfl⟩
        · cases h
      | true =>
        simp only [if_true] at h
        cases hstop : add? (mem.addr - r.base) size with
        | none => simp [hstop, Fault.pure_ok] at h
        | some stop =>
          obtain ⟨_, rfl⟩ := add?_eq_some_iff.1 hstop
          simp only [hstop, Fault.pure_ok] at h
          split at h
          · cases h
          · cases h
            exact .inl ⟨htop, by omega, rfl⟩

theorem alloc_buffer {size align : Nat} {block : Slice}
    (h : r.alloc m size align = .ok (some (block, r', m'))) : r'.buffer = r.buffer := by
  obtain ⟨_, _, _, _, _, rfl, _⟩ := alloc_eq_some h
  rfl

/-- A request writes into the buffer only, and the block lies there. -/
theorem alloc_writes {size align : Nat} {block : Slice}
    (h : r.alloc m size align = .ok (some (block, r', m'))) :
    WrittenIn [r.buffer] m m' ∧ block.Inside r.buffer := by
  obtain ⟨_, _, hlen, hlow, hend, _, rfl⟩ := alloc_eq_some h
  constructor
  · refine (writtenIn_write m (block.addr - headerSize) headerSize _).inside fun s hs => ?_
    rw [List.mem_singleton.1 hs]
    refine ⟨r.buffer, List.mem_singleton_self _, ?_⟩
    simp only [Slice.Inside, buffer]
    omega
  · simp only [Slice.Inside, buffer]
    omega

theorem freeTop_buffer {mem : Slice} (h : r.freeTop m mem = .ok (some r')) :
    r'.buffer = r.buffer := by
  obtain ⟨_, rfl⟩ := freeTop_eq_some h
  rfl

theorem resizeInPlace_buffer {mem : Slice} {size align : Nat}
    (h : r.resizeInPlace mem size align = .ok (some r')) : r'.buffer = r.buffer := by
  obtain ⟨_, _, ⟨_, _, rfl⟩ | ⟨_, _, rfl⟩⟩ := resizeInPlace_eq_some h <;> rfl

/-! ### The operations keep the invariant -/

/-- A new block starts a new entry, and only its header is written. -/
theorem Sound.push {size align : Nat} {block : Slice} (h : Sound r m entries) (hs : 0 < size)
    (ha : r.alloc m size align = .ok (some (block, r', m'))) :
    Sound r' m' (⟨block, r.used⟩ :: entries) ∧
      AgreesOn (entries.map Entry.extent) m m' := by
  obtain ⟨_, _, hlen, hlow, hend, rfl, rfl⟩ := alloc_eq_some ha
  have hb := h.bounded
  have hu := h.used_le
  have hagree : AgreesOn (entries.map Entry.extent) m
      (m.writeWord (block.addr - headerSize) r.used) := by
    refine (writtenIn_write _ _ _ _).agreesOn ?_
    intro extent hmem
    obtain ⟨e, he, rfl⟩ := List.mem_map.1 hmem
    have h1 := h.upper e he
    have h2 := h.lower e he
    refine Slice.disjoint_of_le (.inr ?_)
    simp only [Entry.extent, headerSize] at *
    omega
  have hkept : Sound r (m.writeWord (block.addr - headerSize) r.used) entries :=
    h.memory (Entry.agreesOn_headers_of_extents hagree)
  refine ⟨⟨hb, ?_, ?_, ?_, ?_, ?_, ?_, ?_⟩, hagree⟩
  · simp only
    omega
  · rintro e (_ | ⟨_, he⟩)
    · simp only; omega
    · exact h.nonempty e he
  · rintro e (_ | ⟨_, he⟩)
    · exact hlow
    · exact h.lower e he
  · rintro e (_ | ⟨_, he⟩)
    · simp only; omega
    · have := h.upper e he
      simp only
      omega
  · refine List.pairwise_cons.2 ⟨fun e he => Slice.disjoint_of_le (.inr ?_), h.apart⟩
    have h1 := h.upper e he
    have h2 := h.lower e he
    simp only [Entry.extent, headerSize] at *
    omega
  · rintro e (_ | ⟨_, he⟩)
    · exact readWord_writeWord _ _ (by omega)
    · exact hkept.header e he
  · rintro e (_ | ⟨_, he⟩) e' (_ | ⟨_, he'⟩) hlt
    · exact absurd hlt (Nat.lt_irrefl _)
    · exact h.upper e' he'
    · have := h.upper e he
      simp only at hlt
      omega
    · exact h.above e he e' he' hlt

/-- A block that is given back is forgotten, and the region is rewound to where it was before the
block was made; no other block is cut. -/
theorem Sound.pop (h : Sound r m (e :: entries)) (hf : r.freeTop m e.block = .ok (some r')) :
    Sound r' m entries ∧ r' = { r with used := e.below } := by
  obtain ⟨htop, hr⟩ := freeTop_eq_some hf
  obtain ⟨_, hend⟩ := isTop_eq_true htop
  rw [h.header e List.mem_cons_self] at hr
  subst hr
  refine ⟨{ h.forget with used_le := ?_, upper := ?_ }, rfl⟩
  · have h1 := h.lower e List.mem_cons_self
    have h2 := h.upper e List.mem_cons_self
    have h3 := h.used_le
    simp only
    omega
  · intro e' he'
    have h1 := h.upper e' (List.mem_cons_of_mem _ he')
    have h2 := h.nonempty e' (List.mem_cons_of_mem _ he')
    have h3 := h.nonempty e List.mem_cons_self
    refine h.above e List.mem_cons_self e' (List.mem_cons_of_mem _ he') ?_
    rcases h.below_or_above he' with hlt | hgt <;> omega

/-- A block may get another length, and the region another end, as long as no block is cut. -/
theorem Sound.relength {used size : Nat} (h : Sound r m (e :: entries)) (hs : 0 < size)
    (hu : used ≤ r.capacity) (hend : e.block.addr + size ≤ r.base + used)
    (hother : ∀ e' ∈ entries, e'.block.addr + e'.block.len ≤ r.base + used ∧
      (e'.block.addr + e'.block.len + headerSize ≤ e.block.addr ∨
        e.block.addr < e'.block.addr ∧ e.block.addr + size ≤ r.base + e'.below)) :
    Sound { r with used } m (⟨⟨e.block.addr, size⟩, e.below⟩ :: entries) := by
  refine ⟨h.bounded, hu, ?_, ?_, ?_, ?_, ?_, ?_⟩
  · rintro e' (_ | ⟨_, he'⟩)
    · exact hs
    · exact h.nonempty e' (List.mem_cons_of_mem _ he')
  · rintro e' (_ | ⟨_, he'⟩)
    · exact h.lower e List.mem_cons_self
    · exact h.lower e' (List.mem_cons_of_mem _ he')
  · rintro e' (_ | ⟨_, he'⟩)
    · exact hend
    · exact (hother e' he').1
  · refine List.pairwise_cons.2 ⟨?_, (List.pairwise_cons.1 h.apart).2⟩
    intro e' he'
    have h1 := h.lower e List.mem_cons_self
    have h2 := h.lower e' (List.mem_cons_of_mem _ he')
    have h3 := (hother e' he').2
    refine Slice.disjoint_of_le ?_
    simp only [Entry.extent, headerSize] at *
    omega
  · rintro e' (_ | ⟨_, he'⟩)
    · exact h.header e List.mem_cons_self
    · exact h.header e' (List.mem_cons_of_mem _ he')
  · rintro e₁ (_ | ⟨_, he₁⟩) e₂ (_ | ⟨_, he₂⟩) hlt
    · exact absurd hlt (Nat.lt_irrefl _)
    · exact h.above e List.mem_cons_self e₂ (List.mem_cons_of_mem _ he₂) hlt
    · rcases (hother e₁ he₁).2 with hbelow | habove
      · simp only at hlt
        omega
      · exact habove.2
    · exact h.above e₁ (List.mem_cons_of_mem _ he₁) e₂ (List.mem_cons_of_mem _ he₂) hlt

/-- A block that is resized in place is aligned and keeps its entry, with a new length. -/
theorem Sound.regrow {size align : Nat} (h : Sound r m (e :: entries)) (hs : 0 < size)
    (hpow : ∃ k, align = 2 ^ k) (hr : r.resizeInPlace e.block size align = .ok (some r')) :
    align ∣ e.block.addr ∧ Sound r' m (⟨⟨e.block.addr, size⟩, e.below⟩ :: entries) := by
  obtain ⟨_, haligned, hcase⟩ := resizeInPlace_eq_some hr
  refine ⟨?_, ?_⟩
  · obtain ⟨k, rfl⟩ := hpow
    rw [isAligned_two_pow, Except.ok.injEq, decide_eq_true_iff] at haligned
    exact haligned
  have hlow := h.lower e List.mem_cons_self
  have hup := h.upper e List.mem_cons_self
  have hpos := h.nonempty e List.mem_cons_self
  rcases hcase with ⟨htop, hle, rfl⟩ | ⟨_, hle, rfl⟩
  · -- nothing lies above the top block
    have hend := (isTop_eq_true htop).2
    refine h.relength hs (by omega) (by omega) ?_
    intro e' he'
    have h1 := h.upper e' (List.mem_cons_of_mem _ he')
    have h2 := h.nonempty e' (List.mem_cons_of_mem _ he')
    rcases h.below_or_above he' with hlt | hgt <;> omega
  · refine h.relength hs h.used_le (by omega) ?_
    intro e' he'
    refine ⟨h.upper e' (List.mem_cons_of_mem _ he'), ?_⟩
    rcases h.below_or_above he' with hlt | hgt
    · exact .inl hlt
    · have h1 := h.above e' (List.mem_cons_of_mem _ he') e List.mem_cons_self (by omega)
      exact .inr ⟨by omega, by omega⟩

end AllocChain.Region
