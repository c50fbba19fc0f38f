import AllocChain.Proofs.Bump.Arena
import AllocChain.Proofs.Bump.Slab

/-!
What arenas and slab pools ask of the allocator behind when there is no room left: one block, which
is long enough and aligned well enough for the request that it is asked for
(`Arena.chunk_has_room`, `SlabPool.slab_has_room`). So over an allocator that hands out what it is
asked for a request is refused only because it is refused behind, and then nothing has changed
(`Arena.refused_behind`, `SlabPool.refused_behind`).
-/

namespace AllocChain

open Region

variable {β : Type}

theorem two_pow_dvd_of_max {k j addr : Nat} (h : normalizeAlign (max (2 ^ k) (2 ^ j)) ∣ addr) :
    2 ^ k ∣ addr := by
  rw [normalizeAlign, Nat.max_eq_left (Nat.le_trans (Nat.two_pow_pos k) (Nat.le_max_left _ _))] at h
  rcases Nat.le_total k j with hle | hle
  · rw [Nat.max_eq_right (Nat.pow_le_pow_right (by decide) hle)] at h
    exact Nat.dvd_trans (Nat.pow_dvd_pow 2 hle) h
  · rwa [Nat.max_eq_left (Nat.pow_le_pow_right (by decide) hle)] at h

namespace Arena

variable {B : Allocator β} {s t : (Arena × β) × Machine} {size align capacity : Nat} {a : Arena}
  {mem : Slice} {e : AllocError}

theorem chunkCapacity_returns (a : Arena) (size k : Nat) :
    ∃ found, a.chunkCapacity size (2 ^ k) = .ok found := by
  obtain ⟨start, hup⟩ := Word.alignUp?_returns (v := headerSize) (by decide) (by decide) k
  simp only [chunkCapacity, hup, bind, Except.bind]
  cases start with
  | none => exact ⟨_, rfl⟩
  | some start =>
    cases hadd : Word.add? start size with
    | none => exact ⟨none, by simp [hadd, pure, Except.pure]⟩
    | some needed => exact ⟨some (max needed a.chunkSize), by simp [hadd, pure, Except.pure]⟩

/-- A chunk of the size that a request takes, with room for the block behind its header. -/
theorem chunkCapacity_ok {k : Nat} (h : a.chunkCapacity size (2 ^ k) = .ok (some capacity)) :
    ∃ start, 2 ^ k ∣ start ∧ headerSize ≤ start ∧ start < headerSize + 2 ^ k ∧
      start + size ≤ capacity ∧ a.chunkSize ≤ capacity := by
  simp only [chunkCapacity] at h
  obtain ⟨found, hup, h⟩ := Fault.bind_ok.1 h
  cases found with
  | none => cases Fault.pure_ok.1 h
  | some start =>
    obtain ⟨_, hdvd, hlow, hnext⟩ := Word.alignUp?_eq_some hup
    cases hadd : Word.add? start size with
    | none =>
      simp only [hadd] at h
      cases Fault.pure_ok.1 h
    | some needed =>
      obtain ⟨_, rfl⟩ := Word.add?_eq_some_iff.1 hadd
      simp only [hadd] at h
      cases Fault.pure_ok.1 h
      exact ⟨start, hdvd, hlow, hnext, Nat.le_max_left _ _, Nat.le_max_right _ _⟩

/-- A chunk that is asked for behind is a valid request there. -/
theorem chunk_valid {k : Nat} (hs : 0 < size)
    (h : a.chunkCapacity size (2 ^ k) = .ok (some capacity)) :
    ValidRequest capacity (max (2 ^ k) leastChunkAlign) := by
  obtain ⟨start, _, _, _, hfits, _⟩ := chunkCapacity_ok h
  exact validRequest_max (Nat.lt_of_lt_of_le hs (Nat.le_trans (Nat.le_add_left _ _) hfits)) k 3

theorem chunk_has_room {k : Nat} (h : a.chunkCapacity size (2 ^ k) = .ok (some capacity))
    (hans : mem.Answers capacity (max (2 ^ k) leastChunkAlign)) (hb : mem.Bounded) (m : Memory) :
    (Region.ofSlice mem).alloc m size (2 ^ k) ≠ .ok none := by
  obtain ⟨start, hdvd, hlow, hnext, hfit, _⟩ := chunkCapacity_ok h
  obtain ⟨⟨hlen, haligned⟩, hne⟩ := hans
  intro hnone
  have htaken : Word.add 0 headerSize = .ok headerSize := Word.add_of_lt (by decide)
  rw [alloc_none_iff, Region.fit, Region.ofSlice, htaken] at hnone
  exact place_ne_none (two_pow_dvd_of_max (j := 3) haligned) (Nat.pos_of_ne_zero hne) hb hdvd hlow
    hnext (Nat.le_trans hfit hlen) hnone

variable {holds : List Slice → β × Machine → Prop} {out : List Slice}

/-- A request that is served is refused for want of memory, or as it is refused behind. -/
theorem serve_refused_behind {k : Nat} (hB : Supply B Slice.Answers holds)
    (hh : holds out (s.1.2, s.2)) (hs : 0 < size)
    (h : serve B size (2 ^ k) s = .ok (.error e, t)) :
    e = .outOfMemory size (2 ^ k) ∧ t = s ∨ ∃ capacity chunkAlign u,
      ValidRequest capacity chunkAlign ∧
      B.alloc capacity chunkAlign (s.1.2, s.2) = .ok (.error e, u) ∧ t = ((s.1.1, u.1), u.2) := by
  cases serve_ok h with
  | tooLarge _ _ => exact .inl ⟨rfl, rfl⟩
  | refused _ hcap hcall => exact .inr ⟨_, _, _, chunk_valid hs hcap, hcall, rfl⟩
  | unusable _ hcap hcall hnone _ =>
    obtain ⟨hans, hnew⟩ := hB.alloc hh hcall
    exact absurd hnone (chunk_has_room hcap hans (hB.bounded hnew _ List.mem_cons_self) _)

/-- A request is refused because it is no valid one, for want of memory, or as it is refused
behind. -/
theorem refused_behind (hB : Supply B Slice.Answers holds) (hh : holds out (s.1.2, s.2))
    (h : Arena.alloc B size align s = .ok (.error e, t)) :
    t = s ∨ ∃ capacity chunkAlign u,
      B.alloc capacity chunkAlign (s.1.2, s.2) = .ok (.error e, u) ∧ t = ((s.1.1, u.1), u.2) := by
  rcases allocBy_ok h with ⟨_, _, rfl⟩ | ⟨hs, ⟨k, hk⟩, hserve⟩
  · exact .inl rfl
  rw [hk] at hserve
  rcases serve_refused_behind hB hh hs hserve with ⟨_, hsame⟩ | ⟨n, a, u, _, hcall⟩
  · exact .inl hsame
  · exact .inr ⟨n, a, u, hcall⟩

end Arena

namespace SlabPool

variable {B : Allocator β} {s t : (SlabPool × β) × Machine} {mem : Slice} {size align : Nat}
  {e : AllocError}

theorem slab_has_room {k n : Nat} (hans : mem.Answers (max size n) (max (2 ^ k) leastSlabAlign))
    (hb : mem.Bounded) : (Slab.mk mem 0).bump size (2 ^ k) ≠ .ok none := by
  obtain ⟨⟨hlen, haligned⟩, hne⟩ := hans
  intro hnone
  simp only [Slab.bump] at hnone
  obtain ⟨found, hplace, hret⟩ := Fault.bind_ok.1 hnone
  cases found with
  | none =>
    have hnext : 0 < 0 + 2 ^ k := Nat.lt_add_left 0 (Nat.two_pow_pos k)
    have hfit : 0 + size ≤ mem.len := by omega
    exact place_ne_none (two_pow_dvd_of_max (j := 3) haligned) (Nat.pos_of_ne_zero hne) hb
      (Nat.dvd_zero _) (Nat.le_refl 0) hnext hfit hplace
  | some start => cases Fault.pure_ok.1 hret

variable {holds : List Slice → β × Machine → Prop} {out : List Slice}

theorem serve_refused_behind {k : Nat} (hB : Supply B Slice.Answers holds)
    (hh : holds out (s.1.2, s.2)) (hs : 0 < size)
    (h : serve B size (2 ^ k) s = .ok (.error e, t)) :
    ∃ capacity slabAlign u, ValidRequest capacity slabAlign ∧
      B.alloc capacity slabAlign (s.1.2, s.2) = .ok (.error e, u) ∧ t = ((s.1.1, u.1), u.2) := by
  cases serve_ok h with
  | refused hcall =>
    have hvalid := validRequest_max (Nat.lt_of_lt_of_le hs (Nat.le_max_left _ s.1.1.slabSize)) k 3
    exact ⟨_, _, _, hvalid, hcall, rfl⟩
  | unusable hcall hnone _ =>
    obtain ⟨hans, hnew⟩ := hB.alloc hh hcall
    exact absurd hnone (slab_has_room hans (hB.bounded hnew _ List.mem_cons_self))

/-- A request is refused because it is no valid one or as it is refused behind. -/
theorem refused_behind (hB : Supply B Slice.Answers holds) (hh : holds out (s.1.2, s.2))
    (h : SlabPool.alloc B size align s = .ok (.error e, t)) :
    t = s ∨ ∃ capacity slabAlign u,
      B.alloc capacity slabAlign (s.1.2, s.2) = .ok (.error e, u) ∧ t = ((s.1.1, u.1), u.2) := by
  rcases allocBy_ok h with ⟨_, _, rfl⟩ | ⟨hs, ⟨k, hk⟩, hserve⟩
  · exact .inl rfl
  rw [hk] at hserve
  obtain ⟨n, a, u, _, hcall⟩ := serve_refused_behind hB hh hs hserve
  exact .inr ⟨n, a, u, hcall⟩

end SlabPool
end AllocChain
