import AllocChain.Word.Align

/-!
What rounding by bit masks computes. Main statements: masking the low `k` bits rounds down to a
multiple of `2 ^ k` (`and_complement`), and `roundUp` by a power of two rounds up to a multiple
as long as the first sum is a word (`roundUp_two_pow`).
-/

namespace AllocChain.Word

theorem testBit_complement {mask : Nat} (h : mask < wordLimit) (i : Nat) :
    (complement mask).testBit i = (decide (i < 64) && !mask.testBit i) := by
  rw [complement, Nat.sub_sub, Nat.add_comm]
  exact Nat.testBit_two_pow_sub_succ h i

theorem and_complement {v k : Nat} (hv : v < wordLimit) (hk : 2 ^ k < wordLimit) :
    v &&& complement (2 ^ k - 1) = v / 2 ^ k * 2 ^ k := by
  apply Nat.eq_of_testBit_eq
  intro i
  have hmask : 2 ^ k - 1 < wordLimit := by omega
  rw [Nat.testBit_and, testBit_complement hmask, Nat.testBit_two_pow_sub_one, Nat.mul_comm,
    Nat.testBit_two_pow_mul, Nat.testBit_div_two_pow]
  by_cases hi : k ≤ i
  · have hlow : ¬ i < k := by omega
    rw [Nat.sub_add_cancel hi]
    by_cases h64 : i < 64
    · simp [hi, hlow, h64]
    · have : v.testBit i = false := Nat.testBit_lt_two_pow
        (Nat.lt_of_lt_of_le hv (Nat.pow_le_pow_right (by decide) (by omega)))
      simp [this]
  · have hlow : i < k := by omega
    simp [hi, hlow]

theorem roundUp_two_pow {v k : Nat} (h : v + 2 ^ k < wordLimit) :
    roundUp v (2 ^ k) = .ok ((v + 2 ^ k - 1) / 2 ^ k * 2 ^ k) := by
  have hpos : 0 < 2 ^ k := Nat.two_pow_pos k
  have hk : 2 ^ k < wordLimit := by omega
  have hv : v + 2 ^ k - 1 < wordLimit := by omega
  unfold roundUp
  rw [add_of_lt h]
  simp only [bind, Except.bind]
  rw [sub_of_le (by omega)]
  simp only []
  rw [sub_of_le (by omega)]
  simp only [pure, Except.pure]
  rw [and_complement hv hk]

/-- The three outcomes of rounding up by a power of two, told apart by the sum `v + a`: it is a
word, it is the first number that is none, or it lies beyond that. -/
theorem alignUp?_two_pow (v k : Nat) :
    alignUp? v (2 ^ k) =
      if v + 2 ^ k < wordLimit then .ok (some ((v + 2 ^ k - 1) / 2 ^ k * 2 ^ k))
      else if v + 2 ^ k = wordLimit then .error .addOverflow
      else .ok none := by
  have hpos : 0 < 2 ^ k := Nat.two_pow_pos k
  simp only [alignUp?, isPowerOfTwo_two_pow, Bool.not_true, Bool.false_eq_true, if_false]
  by_cases h : v + 2 ^ k < wordLimit
  · have hadd : v + (2 ^ k - 1) < wordLimit := by omega
    simp [add?, h, hadd, roundUp_two_pow h, Functor.map, Except.map]
  · by_cases heq : v + 2 ^ k = wordLimit
    · have hadd : v + (2 ^ k - 1) < wordLimit := by omega
      simp [add?, heq, hadd, roundUp, add, Functor.map, Except.map, bind, Except.bind]
    · have hadd : ¬ v + (2 ^ k - 1) < wordLimit := by omega
      simp [add?, h, heq, hadd]

end AllocChain.Word
