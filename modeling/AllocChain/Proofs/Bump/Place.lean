import AllocChain.Bump.Place
import AllocChain.Proofs.Inversion
import AllocChain.Word.Rounding

/-!
Where a bump allocator puts a block: not below the used part, aligned, and ending inside the
buffer (`place_eq_some`). A buffer that is aligned itself has room for a block if the buffer is long
enough (`place_ne_none`).
-/

namespace AllocChain

namespace Word

/-- Rounding up gives the least multiple that is not below, and only powers of two round. -/
theorem alignUp?_eq_some {v a r : Nat} (h : alignUp? v a = .ok (some r)) :
    (∃ k, a = 2 ^ k) ∧ a ∣ r ∧ v ≤ r ∧ r < v + a := by
  have hpow : isPowerOfTwo a = true := by
    cases hp : isPowerOfTwo a with
    | true => rfl
    | false => simp [alignUp?, hp] at h
  obtain ⟨k, rfl⟩ := isPowerOfTwo_iff.1 hpow
  have hpos : 0 < 2 ^ k := Nat.two_pow_pos k
  rw [alignUp?_two_pow] at h
  split at h
  · cases h
    have hdiv := Nat.div_add_mod (v + 2 ^ k - 1) (2 ^ k)
    have hmod := Nat.mod_lt (v + 2 ^ k - 1) hpos
    rw [Nat.mul_comm] at hdiv
    exact ⟨⟨k, rfl⟩, Nat.dvd_mul_left _ _, by omega, by omega⟩
  · split at h <;> cases h

theorem add_le_of_dvd {a v r : Nat} (hv : a ∣ v) (hr : a ∣ r) (h : v < r) : v + a ≤ r := by
  have hle := Nat.le_of_dvd (Nat.sub_pos_of_lt h) (Nat.dvd_sub hr hv)
  omega

/-- Below a multiple that is a word, rounding up does not run out of words. -/
theorem alignUp?_ne_none {v k r : Nat} (hr : 2 ^ k ∣ r) (hpos : 0 < r) (hv : v ≤ r)
    (hlt : r < wordLimit) : alignUp? v (2 ^ k) ≠ .ok none := by
  have hk : k ≤ 64 := by
    refine Nat.le_of_lt ((Nat.pow_lt_pow_iff_right Nat.one_lt_two).1 ?_)
    exact Nat.lt_of_le_of_lt (Nat.le_of_dvd hpos hr) hlt
  have hstep : r + 2 ^ k ≤ wordLimit := add_le_of_dvd hr (Nat.pow_dvd_pow 2 hk) hlt
  rw [alignUp?_two_pow]
  split
  · nofun
  · split
    · nofun
    · omega

/-- Rounding up an address that is not in the upper half of the words does not fault. -/
theorem alignUp?_returns {v : Nat} (hpos : 0 < v) (hv : v < 2 ^ 63) (k : Nat) :
    ∃ found, alignUp? v (2 ^ k) = .ok found := by
  rw [alignUp?_two_pow]
  split
  · exact ⟨_, rfl⟩
  rw [if_neg]
  · exact ⟨_, rfl⟩
  intro hedge
  simp only [wordLimit] at hedge
  rcases Nat.lt_or_ge k 64 with hk | hk
  · have hle : 2 ^ k ≤ 2 ^ 63 := Nat.pow_le_pow_right (by decide) (by omega)
    omega
  · have hge : 2 ^ 64 ≤ 2 ^ k := Nat.pow_le_pow_right (by decide) hk
    omega

theorem isAligned_two_pow (v k : Nat) : isAligned v (2 ^ k) = .ok (decide (2 ^ k ∣ v)) := by
  have hpos : 0 < 2 ^ k := Nat.two_pow_pos k
  have hmask : v &&& (2 ^ k - 1) = v % 2 ^ k := Nat.and_two_pow_sub_one_eq_mod v k
  have hdec : (v % 2 ^ k == 0) = decide (2 ^ k ∣ v) := by
    rw [Bool.eq_iff_iff, beq_iff_eq, decide_eq_true_iff, Nat.dvd_iff_mod_eq_zero]
  simp [isAligned, sub_of_le (show 1 ≤ 2 ^ k by omega), hmask, hdec, bind, Except.bind, pure,
    Except.pure]

end Word

open Word

/-- A block that is placed lies above the used part, is aligned, and ends in the buffer. -/
theorem place_eq_some {base capacity used size align start : Nat}
    (h : place base capacity used size align = .ok (some start)) :
    (∃ k, align = 2 ^ k) ∧ align ∣ base + start ∧ used ≤ start ∧ start + size ≤ capacity := by
  simp only [place] at h
  cases hlow : add? base used with
  | none => simp [hlow, Fault.pure_ok] at h
  | some lowest =>
    obtain ⟨_, rfl⟩ := add?_eq_some_iff.1 hlow
    simp only [hlow] at h
    obtain ⟨aligned, hup, h⟩ := Fault.bind_ok.1 h
    cases aligned with
    | none => simp [Fault.pure_ok] at h
    | some aligned =>
      obtain ⟨start', hsub, h⟩ := Fault.bind_ok.1 h
      obtain ⟨hle, rfl⟩ := sub_eq_ok_iff.1 hsub
      obtain ⟨hpow, hdvd, hge, _⟩ := alignUp?_eq_some hup
      cases hstop : add? (aligned - base) size with
      | none => simp [hstop, Fault.pure_ok] at h
      | some stop =>
        obtain ⟨_, rfl⟩ := add?_eq_some_iff.1 hstop
        simp only [hstop, Fault.pure_ok] at h
        split at h
        · cases h
        · cases h
          refine ⟨hpow, ?_, by omega, by omega⟩
          rwa [Nat.add_sub_cancel' hle]

/-- In an aligned buffer a block has room at every aligned offset that is one of the next ones and
leaves enough bytes. -/
theorem place_ne_none {base capacity used size k start : Nat} (hbase : 2 ^ k ∣ base)
    (hpos : 0 < base) (hbound : base + capacity < wordLimit) (hstart : 2 ^ k ∣ start)
    (hlow : used ≤ start) (hnext : start < used + 2 ^ k) (hfit : start + size ≤ capacity) :
    place base capacity used size (2 ^ k) ≠ .ok none := by
  intro h
  have hlowest : add? base used = some (base + used) := add?_eq_some_iff.2 ⟨by omega, rfl⟩
  simp only [place, hlowest] at h
  obtain ⟨found, hup, h⟩ := Fault.bind_ok.1 h
  cases found with
  | none =>
    exact alignUp?_ne_none (Nat.dvd_add hbase hstart) (by omega) (by omega) (by omega) hup
  | some aligned =>
    obtain ⟨_, hdvd, hle, hlt⟩ := alignUp?_eq_some hup
    -- both are the one multiple in a window of `2 ^ k` addresses
    have heq : aligned = base + start := by
      rcases Nat.lt_trichotomy aligned (base + start) with hbelow | heq | habove
      · have := add_le_of_dvd hdvd (Nat.dvd_add hbase hstart) hbelow
        omega
      · exact heq
      · have := add_le_of_dvd (Nat.dvd_add hbase hstart) hdvd habove
        omega
    subst heq
    have hstop : add? start size = some (start + size) := add?_eq_some_iff.2 ⟨by omega, rfl⟩
    obtain ⟨start', hsub, h⟩ := Fault.bind_ok.1 h
    obtain ⟨_, rfl⟩ := sub_eq_ok_iff.1 hsub
    simp only [Nat.add_sub_cancel_left, hstop, Fault.pure_ok, if_neg (Nat.not_lt.2 hfit)] at h
    cases h

end AllocChain
