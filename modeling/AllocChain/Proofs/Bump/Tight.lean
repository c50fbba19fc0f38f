import Mathlib.Order.Bounds.Basic
import AllocChain.Proofs.Bump.Low
import AllocChain.Proofs.Bump.Restore
import AllocChain.Proofs.Bump.Slab

/-!
Bump placement against a specification that knows nothing of words and masks: a block goes to the
least offset at which it fits (`FitsAt`), and a request is refused only if there is no such offset.
The arithmetic is in `place_tight`; a fixed allocator and its region (`Fixed.Tight`,
`Region.Tight`) and a slab (`Slab.Tight`) read it with their own lowest offset. What a request
changes of the memory is the header in front of the block (`tight_of_low`).
-/

namespace AllocChain

open Memory

/-- A block of `size` bytes aligned to `align` may start at offset `start` of the buffer of
`capacity` bytes at `base`, if nothing below offset `lowest` is to be touched. -/
structure FitsAt (base capacity lowest size align start : Nat) : Prop where
  above : lowest ≤ start
  aligned : align ∣ base + start
  inside : start + size ≤ capacity

section Placement

variable {base capacity used size align start k : Nat}

/-- An address below the limit can be rounded up by every power of two that is a word. -/
theorem Word.alignUp?_low {v : Nat} (hv : v < 2 ^ 63) (hk : k ≤ 63) :
    ∃ aligned, Word.alignUp? v (2 ^ k) = .ok (some aligned) := by
  have hle : 2 ^ k ≤ 2 ^ 63 := Nat.pow_le_pow_right (by decide) hk
  rw [Word.alignUp?_two_pow, if_pos]
  · exact ⟨_, rfl⟩
  · simp only [wordLimit]
    omega

/-- A block is placed at the first aligned address above what is used, if it ends within the
buffer there; what ends beyond the last word does not. -/
theorem place_of_aligned {lowest aligned : Nat} (size : Nat)
    (hlowest : Word.add? base used = some lowest)
    (hup : Word.alignUp? lowest align = .ok (some aligned)) (hge : base ≤ aligned)
    (hlimit : capacity < wordLimit) :
    place base capacity used size align =
      .ok (if aligned - base + size ≤ capacity then some (aligned - base) else none) := by
  simp only [place, hlowest, hup, bind, Except.bind, pure, Except.pure, Word.sub_of_le hge]
  by_cases hfit : aligned - base + size ≤ capacity
  · rw [Word.add?_eq_some_iff.2 ⟨Nat.lt_of_le_of_lt hfit hlimit, rfl⟩, if_pos hfit]
    simp only [if_neg (Nat.not_lt.2 hfit)]
  · rw [if_neg hfit]
    cases hstop : Word.add? (aligned - base) size with
    | none => rfl
    | some stop =>
      obtain ⟨_, rfl⟩ := Word.add?_eq_some_iff.1 hstop
      simp only [if_pos (Nat.lt_of_not_le hfit)]

/-- Where a block is placed is the least offset at which it fits, and it is placed if it fits
anywhere: rounding up finds the first aligned address, and what does not fit there fits nowhere. -/
theorem place_tight (size : Nat) (hk : k ≤ 63) (htop : base + capacity ≤ addressLimit)
    (hused : used ≤ capacity + headerSize) :
    (∃ start, place base capacity used size (2 ^ k) = .ok (some start) ∧
      IsLeast {o | FitsAt base capacity used size (2 ^ k) o} start) ∨
    place base capacity used size (2 ^ k) = .ok none ∧
      ∀ o, ¬ FitsAt base capacity used size (2 ^ k) o := by
  have hlow : base + used < 2 ^ 63 := by
    simp only [headerSize, addressLimit] at htop hused
    omega
  have hlowest : Word.add? base used = some (base + used) :=
    Word.add?_eq_some_iff.2 ⟨Nat.lt_trans hlow (by decide), rfl⟩
  obtain ⟨aligned, hup⟩ := Word.alignUp?_low hlow hk
  obtain ⟨_, hdvd, hge, hlt⟩ := Word.alignUp?_eq_some hup
  have hfirst : base + (aligned - base) = aligned := by omega
  have hleast : ∀ o, FitsAt base capacity used size (2 ^ k) o → aligned - base ≤ o := by
    intro o ho
    have habove := ho.above
    by_contra hbelow
    have := Word.add_le_of_dvd ho.aligned hdvd (by omega)
    omega
  have hlimit : capacity < wordLimit := by
    simp only [addressLimit, wordLimit] at htop ⊢
    omega
  have hplace := place_of_aligned size hlowest hup (by omega) hlimit
  by_cases hfit : aligned - base + size ≤ capacity
  · refine .inl ⟨aligned - base, ?_, ⟨by omega, by rwa [hfirst], hfit⟩, hleast⟩
    rw [hplace, if_pos hfit]
  · refine .inr ⟨?_, fun o ho => ?_⟩
    · rw [hplace, if_neg hfit]
    · have := hleast o ho
      have := ho.inside
      omega

end Placement

namespace Region

variable {r : Region} {m : Memory} {size align k : Nat}

/-- A block may start at the offset, with room for its header above what is used. -/
abbrev FitsAt (r : Region) (size align start : Nat) : Prop :=
  AllocChain.FitsAt r.base r.capacity (r.used + headerSize) size align start

/-- In the new memory the word in front of the block says what was used, and nothing else has
changed. -/
structure Headed (r : Region) (addr : Nat) (m m' : Memory) : Prop where
  header : m'.readWord (addr - headerSize) = r.used
  others : WrittenIn [⟨addr - headerSize, headerSize⟩] m m'

/-- What a region does with a request: the block goes to the least offset at which it fits, and
there is none only if it fits nowhere. -/
structure Tight (r : Region) (m : Memory) (size align : Nat) : Prop where
  answered_iff : (∃ found, r.alloc m size align = .ok (some found)) ↔ ∃ o, r.FitsAt size align o
  least {start} : IsLeast {o | r.FitsAt size align o} start →
    ∃ m', r.alloc m size align =
        .ok (some (⟨r.base + start, size⟩, { r with used := start + size }, m')) ∧
      r.Headed (r.base + start) m m'
  refused : (∀ o, ¬ r.FitsAt size align o) → r.alloc m size align = .ok none

theorem Low.fit_tight (h : r.Low) (size : Nat) (hk : k ≤ 63) :
    (∃ start, r.fit size (2 ^ k) = .ok (some start) ∧
      IsLeast {o | r.FitsAt size (2 ^ k) o} start) ∨
    r.fit size (2 ^ k) = .ok none ∧ ∀ o, ¬ r.FitsAt size (2 ^ k) o := by
  have htop := h.top
  have hused := h.used
  have htaken : Word.add r.used headerSize = .ok (r.used + headerSize) := by
    refine Word.add_of_lt ?_
    simp only [headerSize, addressLimit, wordLimit] at htop ⊢
    omega
  simp only [fit, htaken, bind, Except.bind]
  exact place_tight size hk htop (Nat.add_le_add_right hused _)

theorem Low.headed (h : r.Low) (m : Memory) (addr : Nat) :
    r.Headed addr m (m.writeWord (addr - headerSize) r.used) where
  header := by
    have htop := h.top
    have hused := h.used
    refine readWord_writeWord _ _ ?_
    simp only [addressLimit, wordLimit] at htop ⊢
    omega
  others := writtenIn_write m (addr - headerSize) headerSize _

theorem Low.tight (h : r.Low) (m : Memory) (size : Nat) (hk : k ≤ 63) :
    r.Tight m size (2 ^ k) := by
  rcases h.fit_tight size hk with ⟨start, hfit, hleast⟩ | ⟨hfit, hnone⟩
  · have halloc : r.alloc m size (2 ^ k) = .ok (some (⟨r.base + start, size⟩,
        { r with used := start + size }, m.writeWord (r.base + start - headerSize) r.used)) := by
      rw [alloc_eq_map, hfit]
      rfl
    refine ⟨iff_of_true ⟨_, halloc⟩ ⟨start, hleast.1⟩, ?_, fun hno => absurd hleast.1 (hno start)⟩
    intro start' hleast'
    obtain rfl := hleast'.unique hleast
    exact ⟨_, halloc, h.headed m _⟩
  · have halloc : r.alloc m size (2 ^ k) = .ok none := by
      rw [alloc_eq_map, hfit]
      rfl
    refine ⟨iff_of_false ?_ (not_exists.2 hnone), fun hleast => absurd hleast.1 (hnone _),
      fun _ => halloc⟩
    rintro ⟨found, hfound⟩
    cases halloc.symm.trans hfound

end Region

namespace Fixed

variable {s : Region × Machine} {size align k : Nat}

/-- What a fixed allocator does with a request: the block goes to the least offset at which it
fits, with a header in front of it, and if it fits nowhere nothing changes. -/
structure Tight (s : Region × Machine) (size align : Nat) : Prop where
  answered_iff : (∃ block t, alloc size align s = .ok (.ok block, t)) ↔
    ∃ o, s.1.FitsAt size align o
  least {start} : IsLeast {o | s.1.FitsAt size align o} start →
    ∃ m', alloc size align s = .ok (.ok ⟨s.1.base + start, size⟩,
        ({ s.1 with used := start + size },
          (s.2.mapMemory fun _ => m').report [.fixedAlloc size align (s.1.base + start)])) ∧
      s.1.Headed (s.1.base + start) s.2.memory m'
  refused : (∀ o, ¬ s.1.FitsAt size align o) →
    alloc size align s = .ok (.error (.outOfMemory size align), s)

theorem push_none (h : s.1.alloc s.2.memory size align = .ok none) :
    push size align s = .ok (.error (.outOfMemory size align), s) := by
  simp only [push, Act.bind_ok, Act.get_ok, Act.lift_ok]
  exact ⟨_, _, ⟨rfl, rfl⟩, _, _, ⟨h, rfl⟩, Act.pure_ok.2 ⟨rfl, rfl⟩⟩

theorem tight_of_region (hs : 0 < size) (h : s.1.Tight s.2.memory size (2 ^ k)) :
    Tight s size (2 ^ k) := by
  have halloc : alloc size (2 ^ k) = push size (2 ^ k) := allocBy_two_pow hs k
  refine ⟨?_, fun hleast => ?_, fun hnone => halloc ▸ push_none (h.refused hnone)⟩
  · rw [← h.answered_iff, halloc]
    constructor
    · rintro ⟨block, t, hpush⟩
      rcases push_ok hpush with ⟨_, hbad, _⟩ | ⟨_, _, _, _, _, hfound, _⟩
      · cases hbad
      · exact ⟨_, hfound⟩
    · rintro ⟨⟨block, r, m⟩, hfound⟩
      exact ⟨_, _, push_met hfound⟩
  · obtain ⟨m', hfound, hheaded⟩ := h.least hleast
    exact ⟨m', halloc ▸ push_met hfound, hheaded⟩

end Fixed

namespace Slab

variable {slab : Slab} {size align k : Nat}

/-- A block may start at the offset, above what is taken; slabs have no headers. -/
abbrev FitsAt (slab : Slab) (size align start : Nat) : Prop :=
  AllocChain.FitsAt slab.mem.addr slab.mem.len slab.offset size align start

/-- The slab ends below the limit, and no more than all of it is taken. -/
structure Low (slab : Slab) : Prop where
  top : slab.mem.addr + slab.mem.len ≤ addressLimit
  offset : slab.offset ≤ slab.mem.len

/-- What a slab does with a request: the block goes to the least offset at which it fits, and there
is none only if it fits nowhere. -/
structure Tight (slab : Slab) (size align : Nat) : Prop where
  answered_iff : (∃ found, slab.bump size align = .ok (some found)) ↔
    ∃ o, slab.FitsAt size align o
  least {start} : IsLeast {o | slab.FitsAt size align o} start →
    slab.bump size align =
      .ok (some (⟨slab.mem.addr + start, size⟩, { slab with offset := start + size }))
  refused : (∀ o, ¬ slab.FitsAt size align o) → slab.bump size align = .ok none

theorem Low.tight (h : slab.Low) (size : Nat) (hk : k ≤ 63) : slab.Tight size (2 ^ k) := by
  have hused : slab.offset ≤ slab.mem.len + headerSize := Nat.le_add_right_of_le h.offset
  rcases place_tight size hk h.top hused with ⟨start, hplace, hleast⟩ | ⟨hplace, hnone⟩
  · have hbump : slab.bump size (2 ^ k) = .ok (some (⟨slab.mem.addr + start, size⟩,
        { slab with offset := start + size })) := by
      simp only [bump, hplace]
      rfl
    refine ⟨iff_of_true ⟨_, hbump⟩ ⟨start, hleast.1⟩, ?_, fun hno => absurd hleast.1 (hno start)⟩
    intro start' hleast'
    obtain rfl := hleast'.unique hleast
    exact hbump
  · have hbump : slab.bump size (2 ^ k) = .ok none := by
      simp only [bump, hplace]
      rfl
    refine ⟨iff_of_false ?_ (not_exists.2 hnone), fun hleast => absurd hleast.1 (hnone _),
      fun _ => hbump⟩
    rintro ⟨found, hfound⟩
    cases hbump.symm.trans hfound

end Slab

/-- In every buffer that ends below the limit, whatever is used of it: a request is answered if and
only if there is an offset at which the block fits, with the block at the least such offset, and
otherwise nothing changes. -/
theorem tight_of_low (size : Nat) {k : Nat} (hs : 0 < size) (hk : k ≤ 63) :
    (∀ (r : Region) (m : Machine), r.Low →
      r.Tight m.memory size (2 ^ k) ∧ Fixed.Tight (r, m) size (2 ^ k)) ∧
    ∀ slab : Slab, slab.Low → slab.Tight size (2 ^ k) := by
  refine ⟨fun r m hlow => ?_, fun slab hlow => hlow.tight size hk⟩
  have htight := hlow.tight m.memory size hk
  exact ⟨htight, Fixed.tight_of_region hs htight⟩

/-- A buffer that starts at an odd address and is used up to an odd offset, with one block that goes
far up and one that is too long; and a slab that has room only for what is not aligned. -/
theorem tight_of_crooked_buffers :
    (⟨101, 200, 9⟩ : Region).Low ∧ (⟨⟨24, 40⟩, 8⟩ : Slab).Low ∧
    (∃ t, Fixed.alloc 16 64 (⟨101, 200, 9⟩, ⟨.zero, [], []⟩) = .ok (.ok ⟨128, 16⟩, t) ∧
      t.1.used = 43 ∧ t.2.memory.readWord 120 = 9) ∧
    Fixed.alloc 200 64 (⟨101, 200, 9⟩, ⟨.zero, [], []⟩) =
      .ok (.error (.outOfMemory 200 64), (⟨101, 200, 9⟩, ⟨.zero, [], []⟩)) ∧
    (⟨⟨24, 40⟩, 8⟩ : Slab).bump 16 64 = .ok none := by
  have hregion : (⟨101, 200, 9⟩ : Region).Low := ⟨by decide, by decide⟩
  have hslab : (⟨⟨24, 40⟩, 8⟩ : Slab).Low := ⟨by decide, by decide⟩
  have hleast : IsLeast {o | (⟨101, 200, 9⟩ : Region).FitsAt 16 (2 ^ 6) o} 27 := by
    refine ⟨⟨by decide, by decide, by decide⟩, ?_⟩
    intro o ho
    have habove : 17 ≤ o := ho.above
    have hdvd : 64 ∣ 101 + o := ho.aligned
    omega
  have hnone : ∀ o, ¬ (⟨101, 200, 9⟩ : Region).FitsAt 200 (2 ^ 6) o := by
    intro o ho
    have habove : 17 ≤ o := ho.above
    have hin : o + 200 ≤ 200 := ho.inside
    omega
  have hnoslab : ∀ o, ¬ (⟨⟨24, 40⟩, 8⟩ : Slab).FitsAt 16 (2 ^ 6) o := by
    intro o ho
    have hdvd : 64 ∣ 24 + o := ho.aligned
    have hin : o + 16 ≤ 40 := ho.inside
    omega
  obtain ⟨hfixed, hslabs⟩ := tight_of_low 16 (k := 6) (by decide) (by decide)
  obtain ⟨hlong, _⟩ := tight_of_low 200 (k := 6) (by decide) (by decide)
  obtain ⟨m', halloc, hheaded⟩ := (hfixed _ ⟨.zero, [], []⟩ hregion).2.least hleast
  exact ⟨hregion, hslab, ⟨_, halloc, rfl, hheaded.header⟩,
    (hlong _ ⟨.zero, [], []⟩ hregion).2.refused hnone, (hslabs _ hslab).refused hnoslab⟩

end AllocChain
