import Mathlib.Order.Bounds.Basic
import AllocChain.Platform.Pages
import AllocChain.Proofs.Breakdown
import AllocChain.Proofs.Bump.Place

/-!
Rounding up at the end of the words. `Word.alignUp?` gives the least multiple, or `none` if that is
no word, except where the sum of both numbers is the first number that is no word: there it breaks
off, although the least multiple is a word (`Word.alignUp?_rounds`). The page allocator rounds every
length so. Main statement: apart from that edge it answers every request, whatever the mapper does
within its means, and a length whose pages cannot be counted is refused or left alone
(`Pages.rounds_off_edge`).
-/

namespace AllocChain

namespace Word

/-- What rounding `v` up to a multiple of `a` should give: the least multiple that is not below `v`,
or `none` if that is no word. -/
def RoundsTo (v a : Nat) (found : Option Nat) : Prop :=
  ∀ r, found = some r ↔ r < wordLimit ∧ IsLeast {x | a ∣ x ∧ v ≤ x} r

variable {v a r k : Nat}

/-- The one multiple within reach is the least one. -/
theorem isLeast_multiple (hdvd : a ∣ r) (hle : v ≤ r) (hlt : r < v + a) :
    IsLeast {x | a ∣ x ∧ v ≤ x} r := by
  refine ⟨⟨hdvd, hle⟩, ?_⟩
  rintro x ⟨hx, hvx⟩
  by_contra hbelow
  have := add_le_of_dvd hx hdvd (Nat.lt_of_not_le hbelow)
  omega

theorem two_pow_dvd_wordLimit (hk : 2 ^ k < wordLimit) : 2 ^ k ∣ wordLimit :=
  Nat.pow_dvd_pow 2 (Nat.le_of_lt ((Nat.pow_lt_pow_iff_right (by decide)).1 hk))

/-- Beyond the last multiple that is a word there is nothing to round to. -/
theorem no_multiple (hk : 2 ^ k < wordLimit) (hv : wordLimit < v + 2 ^ k) {x : Nat}
    (hx : 2 ^ k ∣ x) (hvx : v ≤ x) : wordLimit ≤ x := by
  by_contra hlt
  have := add_le_of_dvd hx (two_pow_dvd_wordLimit hk) (Nat.lt_of_not_le hlt)
  omega

/-- Rounding up breaks off where the sum just leaves the words, and is right everywhere else. -/
theorem alignUp?_rounds (hk : 2 ^ k < wordLimit) :
    (v + 2 ^ k = wordLimit → alignUp? v (2 ^ k) = .error .addOverflow) ∧
      (v + 2 ^ k ≠ wordLimit → ∃ found, alignUp? v (2 ^ k) = .ok found ∧
        RoundsTo v (2 ^ k) found) := by
  have hup := alignUp?_two_pow v k
  refine ⟨fun hedge => ?_, fun hne => ?_⟩
  · rw [hup, if_neg (Nat.not_lt.2 (Nat.le_of_eq hedge.symm)), if_pos hedge]
  · rcases Nat.lt_or_ge (v + 2 ^ k) wordLimit with hlt | hge
    · rw [if_pos hlt] at hup
      obtain ⟨_, hdvd, hle, hreach⟩ := alignUp?_eq_some hup
      have hleast := isLeast_multiple hdvd hle hreach
      refine ⟨_, hup, fun r => ⟨?_, ?_⟩⟩
      · rintro ⟨⟩
        exact ⟨Nat.lt_trans hreach hlt, hleast⟩
      · rintro ⟨_, hr⟩
        rw [hleast.unique hr]
    · rw [if_neg (Nat.not_lt.2 hge), if_neg hne] at hup
      refine ⟨none, hup, fun r => ⟨nofun, ?_⟩⟩
      rintro ⟨hr, ⟨hdvd, hle⟩, _⟩
      have := no_multiple hk (by omega) hdvd hle
      omega

/-- At the edge the number is a multiple itself. -/
theorem isLeast_of_edge (hk : 2 ^ k < wordLimit) (hedge : v + 2 ^ k = wordLimit) :
    IsLeast {x | 2 ^ k ∣ x ∧ v ≤ x} v := by
  have hlimit : 2 ^ k ∣ v + 2 ^ k := hedge ▸ two_pow_dvd_wordLimit hk
  have hdvd : 2 ^ k ∣ v := (Nat.dvd_add_iff_left (Nat.dvd_refl _)).2 hlimit
  exact ⟨⟨hdvd, Nat.le_refl v⟩, fun x hx => hx.2⟩

theorem RoundsTo.eq {found found' : Option Nat} (h : RoundsTo v a found)
    (h' : RoundsTo v a found') : found = found' := by
  refine Option.ext fun r => ?_
  rw [h, h']

end Word

/-- What the platform reserves is aligned and ends below its limit. -/
theorem Platform.reserve_some {p : Platform} {size align start : Nat}
    (h : (p.reserve size align).1 = some start) : align ∣ start ∧ start + size ≤ limit := by
  unfold reserve at h
  simp only at h
  split at h
  · cases h
  · rename_i hroom
    cases h
    exact ⟨Nat.dvd_mul_left _ _, Nat.le_of_not_lt (not_or.1 (not_or.1 hroom).2).2⟩

/-- What is relied on of a mapper: it does not break off, and every range that it maps starts with a
page and ends before the last address. -/
structure Mapper.Serves {β : Type} (M : Mapper β) (pageSize : Nat) : Prop where
  map (len : Nat) (s : β × Machine) : ∃ found t, M.map len s = .ok (found, t) ∧
    ∀ start, found = some start → pageSize ∣ start ∧ start + len < wordLimit
  unmap (addr len : Nat) (s : β × Machine) : ∃ t, M.unmap addr len s = .ok ((), t)

namespace Pages

open Word

variable {β : Type} {M : Mapper β} {pageSize size align k j len : Nat} {s : β × Machine}
  {mem : Slice}

/-- A length at the edge: the page allocator breaks off when it rounds it up. -/
def AtEdge (pageSize len : Nat) : Prop := len + pageSize = wordLimit

/-- A mapping that has room for an aligned window of `len` bytes has it after rounding up. -/
theorem window {start : Nat} (hle : k ≤ j) (hlen : 2 ^ k ≤ len) (hstart : 2 ^ k ∣ start)
    (hend : start + (len + (2 ^ j - 2 ^ k)) < wordLimit) :
    ∃ aligned, alignUp? start (2 ^ j) = .ok (some aligned) ∧ 2 ^ j ∣ aligned ∧ start ≤ aligned ∧
      aligned + len ≤ start + (len + (2 ^ j - 2 ^ k)) := by
  have hpow : 2 ^ k ≤ 2 ^ j := Nat.pow_le_pow_right (by decide) hle
  have hdvd : 2 ^ k ∣ 2 ^ j := Nat.pow_dvd_pow 2 hle
  have hup := alignUp?_two_pow start j
  rw [if_pos (by omega)] at hup
  obtain ⟨_, haligned, hge, hlt⟩ := alignUp?_eq_some hup
  -- the window starts at a page, so it starts at least a page before the end of its reach
  have hreach := add_le_of_dvd (Nat.dvd_trans hdvd haligned) (Nat.dvd_add hstart hdvd) hlt
  exact ⟨_, hup, haligned, hge, by omega⟩

theorem trim_breaksOnly (hM : M.Serves pageSize) (addr len : Nat) (s : β × Machine) :
    (M.trim addr len).BreaksOnly (fun _ => False) s := by
  simp only [Mapper.trim]
  split
  · obtain ⟨t, ht⟩ := hM.unmap addr len s
    exact .of_ok ht
  · exact .pure _ _

theorem serveOverAligned_breaksOnly (hM : M.Serves (2 ^ k)) (hle : k ≤ j) (hlen : 2 ^ k ≤ len) :
    (serveOverAligned M (2 ^ k) len size (2 ^ j)).BreaksOnly (fun _ => False) s := by
  simp only [serveOverAligned]
  cases htotal : add? len (2 ^ j - 2 ^ k) with
  | none => exact .pure _ _
  | some total =>
    obtain ⟨_, rfl⟩ := add?_eq_some_iff.1 htotal
    obtain ⟨found, u, hmap, hfound⟩ := hM.map (len + (2 ^ j - 2 ^ k)) s
    refine .bind (.of_ok hmap) fun found' t ht => ?_
    cases hmap.symm.trans ht
    cases found with
    | none => exact .pure _ _
    | some start =>
      obtain ⟨hstart, hend⟩ := hfound start rfl
      obtain ⟨aligned, hup, _, hge, hwindow⟩ := window hle hlen hstart hend
      refine .lift_bind hup (.lift_bind (sub_of_le hge) ?_)
      refine .bind (trim_breaksOnly hM _ _ _) fun _ t _ => ?_
      refine .lift_bind (add_of_lt (by omega)) (.lift_bind (add_of_lt hend) ?_)
      refine .lift_bind (sub_of_le hwindow) ?_
      exact .bind (trim_breaksOnly hM _ _ _) fun _ t _ => .emit_bind (.pure _ _)

theorem serve_breaksOnly (hM : M.Serves (2 ^ k)) (hk : 2 ^ k < wordLimit) (hsize : 0 < size)
    (hoff : ¬ AtEdge (2 ^ k) size) :
    (serve M (2 ^ k) size (2 ^ j)).BreaksOnly (fun _ => False) s := by
  obtain ⟨found, hround, _⟩ := (alignUp?_rounds hk).2 hoff
  refine .lift_bind hround ?_
  cases found with
  | none => exact .pure _ _
  | some len =>
    by_cases hle : 2 ^ j ≤ 2 ^ k
    · simp only [if_pos hle]
      obtain ⟨found, u, hmap, _⟩ := hM.map len s
      refine .bind (.of_ok hmap) fun found' t _ => ?_
      cases found' with
      | none => exact .pure _ _
      | some addr => exact .emit_bind (.pure _ _)
    · simp only [if_neg hle]
      obtain ⟨_, hdvd, hge, _⟩ := alignUp?_eq_some hround
      have hlen : 2 ^ k ≤ len := Nat.le_of_dvd (Nat.lt_of_lt_of_le hsize hge) hdvd
      have hkj : k ≤ j :=
        (Nat.pow_le_pow_iff_right (by decide)).1 (Nat.le_of_lt (Nat.lt_of_not_le hle))
      exact serveOverAligned_breaksOnly hM hkj hlen

/-- A request is answered unless its layout is valid and its size at the edge. -/
theorem alloc_returns_iff (hM : M.Serves (2 ^ k)) (hk : 2 ^ k < wordLimit) :
    (∃ r t, alloc M (2 ^ k) size align s = .ok (r, t)) ↔
      ¬ (0 < size ∧ ValidAlign align ∧ AtEdge (2 ^ k) size) := by
  simp only [alloc]
  constructor
  · rintro ⟨r, t, h⟩ ⟨hsize, halign, hedge⟩
    have hround : round (2 ^ k) size = .error .addOverflow := (alignUp?_rounds hk).1 hedge
    rw [allocBy_valid hsize (validAlign_iff.1 halign)] at h
    simp [serve, hround, Except.bind, Except.map] at h
  · intro hoff
    refine Act.BreaksOnly.returns ?_
    simp only [allocBy]
    cases hc : checkRequest size align with
    | error e => exact .pure _ _
    | ok a =>
      obtain ⟨hs, hpow, rfl⟩ := checkRequest_eq_ok_iff.1 hc
      obtain ⟨j, hj⟩ := isPowerOfTwo_iff.1 hpow
      have hsize : 0 < size := Nat.pos_of_ne_zero hs
      simp only [hj]
      exact serve_breaksOnly hM hk hsize fun hedge =>
        hoff ⟨hsize, validAlign_iff.2 ⟨j, hj⟩, hedge⟩

/-- A length whose pages cannot be counted is no length at the edge. -/
theorem round_uncountable (hk : 2 ^ k < wordLimit) (hnone : RoundsTo len (2 ^ k) none) :
    round (2 ^ k) len = .ok none := by
  have hoff : len + 2 ^ k ≠ wordLimit := fun hedge => by
    have hword : len < wordLimit := by
      have := Nat.two_pow_pos k
      omega
    cases (hnone len).2 ⟨hword, isLeast_of_edge hk hedge⟩
  obtain ⟨found, hup, hrounds⟩ := (alignUp?_rounds hk).2 hoff
  rw [hrounds.eq hnone] at hup
  exact hup

/-- How the page allocator reports a length whose pages cannot be counted: it refuses to hand out so
much, it refuses to resize a block of that length or to that length, and it does not free such a
block. -/
structure Declines (M : Mapper β) (pageSize len : Nat) : Prop where
  alloc : ∀ align s, 0 < len → ValidAlign align →
    (allocator M pageSize).alloc len align s =
      .ok (.error (.outOfMemory len (normalizeAlign align)), s)
  resize_old : ∀ mem size align s, mem.isNull = false → mem.len = len → 0 < size →
    ValidAlign align →
    (allocator M pageSize).resize mem size align s = .ok (.error .corruptLength, s)
  resize_new : ∀ mem align s n, mem.isNull = false → round pageSize mem.len = .ok (some n) →
    0 < len → ValidAlign align → (allocator M pageSize).resize mem len align s =
      .ok (.error (.outOfMemory len (normalizeAlign align)), s)
  free : ∀ mem s, mem.len = len → (allocator M pageSize).free mem s = .ok ((), s)

theorem declines_uncountable (M : Mapper β) (hk : 2 ^ k < wordLimit)
    (hnone : RoundsTo len (2 ^ k) none) : Declines M (2 ^ k) len := by
  have hround := round_uncountable hk hnone
  refine ⟨?_, ?_, ?_, ?_⟩
  · intro align s hlen halign
    simp only [allocator, alloc]
    rw [allocBy_valid hlen (validAlign_iff.1 halign)]
    simp [serve, hround, Except.bind, Except.map]
  · rintro mem size align s hn rfl hsize halign
    simp only [allocator]
    rw [resizeBy_valid hn (Nat.ne_of_gt hsize) (validAlign_iff.1 halign)]
    simp [adjust, hround, Except.bind, Except.map]
  · intro mem align s n hn hold hlen halign
    simp only [allocator]
    rw [resizeBy_valid hn (Nat.ne_of_gt hlen) (validAlign_iff.1 halign)]
    simp [adjust, hround, hold, Except.bind, Except.map]
  · rintro mem s rfl
    simp only [allocator, free]
    cases mem.isNull <;> simp [hround, Except.bind, Except.map]

/-- What the page allocator makes of lengths: off the edge their pages are counted right, and every
request is answered unless its layout is valid and its size at the edge. -/
structure Counts (M : Mapper β) (pageSize : Nat) : Prop where
  round : ∀ len, ¬ AtEdge pageSize len →
    ∃ found, round pageSize len = .ok found ∧ RoundsTo len pageSize found
  alloc : ∀ size align s, (∃ r t, (allocator M pageSize).alloc size align s = .ok (r, t)) ↔
    ¬ (0 < size ∧ ValidAlign align ∧ AtEdge pageSize size)
  declines : ∀ len, RoundsTo len pageSize none → Declines M pageSize len

/-- Rounding up to a power of two gives the least multiple, or `none` if that is no word, except
where the sum of both numbers is the first number that is no word: there it breaks off. The page
allocator rounds every length so. -/
theorem rounds_off_edge (hM : M.Serves pageSize) (hpage : isPowerOfTwo pageSize = true)
    (hlt : pageSize < wordLimit) :
    (∀ v a, isPowerOfTwo a = true → a < wordLimit →
      (v + a = wordLimit → alignUp? v a = .error .addOverflow) ∧
        (v + a ≠ wordLimit → ∃ found, alignUp? v a = .ok found ∧ RoundsTo v a found)) ∧
    Counts M pageSize := by
  obtain ⟨k, rfl⟩ := isPowerOfTwo_iff.1 hpage
  refine ⟨fun v a ha hword => ?_, fun len hoff => (alignUp?_rounds hlt).2 hoff,
    fun size align s => alloc_returns_iff hM hlt, fun len => declines_uncountable M hlt⟩
  obtain ⟨j, rfl⟩ := isPowerOfTwo_iff.1 ha
  exact alignUp?_rounds hword

/-- The mapper of the platform maps below the limit of its addresses. -/
theorem serves_platform : platformMapper.Serves platformPageSize where
  map len s := by
    refine ⟨(s.1.reserve len platformPageSize).1, ((s.1.reserve len platformPageSize).2, s.2), rfl,
      fun start h => ?_⟩
    obtain ⟨hdvd, hend⟩ := Platform.reserve_some h
    exact ⟨hdvd, Nat.lt_of_le_of_lt hend (by decide)⟩
  unmap addr len s := ⟨s, rfl⟩

/-- The last length that is rounded up right, a length at the edge with a layout that is valid and
with one that is not, and a length whose pages cannot be counted. -/
theorem rounds_off_edge_of_platform :
    platformMapper.Serves 4096 ∧ isPowerOfTwo 4096 = true ∧ 4096 < wordLimit ∧
      (∃ found, alignUp? (2 ^ 64 - 4097) 4096 = .ok found ∧ RoundsTo (2 ^ 64 - 4097) 4096 found) ∧
      (∀ s, ¬ ∃ r t, (allocator platformMapper 4096).alloc (2 ^ 64 - 4096) 8 s = .ok (r, t)) ∧
      (∀ s, ∃ r t, (allocator platformMapper 4096).alloc (2 ^ 64 - 4096) 24 s = .ok (r, t)) ∧
      ∀ s, (allocator platformMapper 4096).free ⟨4096, 2 ^ 64 - 4095⟩ s = .ok ((), s) := by
  have hpage : isPowerOfTwo 4096 = true := by decide
  have hlt : 4096 < wordLimit := by decide
  obtain ⟨hup, hcounts⟩ := rounds_off_edge serves_platform hpage hlt
  have hnone : RoundsTo (2 ^ 64 - 4095) 4096 none := by
    obtain ⟨found, hfound, hrounds⟩ := (hup (2 ^ 64 - 4095) 4096 hpage hlt).2 (by decide)
    cases hfound.symm.trans (show alignUp? (2 ^ 64 - 4095) 4096 = .ok none by decide)
    exact hrounds
  refine ⟨serves_platform, hpage, hlt, (hup _ 4096 hpage hlt).2 (by decide), fun s h => ?_,
    fun s => (hcounts.alloc _ 24 s).2 ?_, fun s => (hcounts.declines _ hnone).free _ s rfl⟩
  · exact (hcounts.alloc _ 8 s).1 h ⟨by decide, .inr ⟨3, rfl⟩, rfl⟩
  · rintro ⟨_, hvalid, _⟩
    obtain ⟨j, hj⟩ := validAlign_iff.1 hvalid
    exact absurd (isPowerOfTwo_iff.2 ⟨j, hj⟩) (by decide)

/-- At the edge the least multiple is a word, and yet rounding up breaks off, and a request for so
many pages with it. -/
theorem breaks_off_at_edge :
    IsLeast {x | 4096 ∣ x ∧ 2 ^ 64 - 4096 ≤ x} (2 ^ 64 - 4096) ∧ 2 ^ 64 - 4096 < wordLimit ∧
      alignUp? (2 ^ 64 - 4096) 4096 = .error .addOverflow ∧
      (allocator platformMapper 4096).alloc (2 ^ 64 - 4096) 8 (.fresh, ⟨.zero, [], []⟩) =
        .error ⟨.addOverflow, [], []⟩ :=
  ⟨isLeast_of_edge (k := 12) (by decide) rfl, by decide, by decide, rfl⟩

end Pages
end AllocChain
