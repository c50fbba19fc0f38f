import AllocChain.Bits.Basic

/-!
The bits of one packed word. Main statements: `ones` lists exactly the set bits (`mem_ones`), in
strictly ascending order (`ones_pairwise`), and there are `count` of them (`length_ones`).
-/

namespace AllocChain.BitWord

theorem lowest_eq_iff {w : BitWord} {i : Nat} (hi : i < 64) :
    lowest w = i ↔ w.getLsbD i = true ∧ ∀ j, j < i → w.getLsbD j = false := by
  unfold lowest
  cases h : (List.range wordBits).find? w.getLsbD with
  | some k =>
    rw [List.find?_range_eq_some] at h
    constructor
    · rintro rfl
      exact ⟨h.1, fun j hj => by simpa using h.2.2 j hj⟩
    · rintro ⟨hw, hlow⟩
      rcases Nat.lt_trichotomy k i with hlt | heq | hgt
      · rw [hlow k hlt] at h; simp at h
      · exact heq
      · have := h.2.2 i hgt; simp [hw] at this
  | none =>
    rw [List.find?_eq_none] at h
    constructor
    · intro heq
      exact absurd heq (by simp [wordBits]; omega)
    · rintro ⟨hw, _⟩
      exact absurd hw (h i (List.mem_range.2 hi))

theorem lowest_lt {w : BitWord} (h : w ≠ 0#64) : lowest w < 64 := by
  rcases Nat.lt_or_ge (lowest w) 64 with hlt | hge
  · exact hlt
  · refine absurd (BitVec.eq_of_getLsbD_eq fun i hi => ?_) h
    cases hf : (List.range wordBits).find? w.getLsbD with
    | none =>
      rw [List.find?_eq_none] at hf
      simpa using hf i (List.mem_range.2 hi)
    | some k =>
      have := (List.find?_range_eq_some.1 hf).2.1
      simp [lowest, hf] at hge
      simp [wordBits] at this
      omega

theorem getLsbD_lowest {w : BitWord} (h : w ≠ 0#64) : w.getLsbD (lowest w) = true :=
  ((lowest_eq_iff (lowest_lt h)).1 rfl).1

theorem getLsbD_of_lt_lowest {w : BitWord} {j : Nat} (h : j < lowest w) : w.getLsbD j = false := by
  by_cases h0 : w = 0#64
  · simp [h0]
  · exact ((lowest_eq_iff (lowest_lt h0)).1 rfl).2 j h

/-- Taking one less and masking strikes out the lowest set bit and no other. -/
theorem getLsbD_and_pred {w : BitWord} (h : w ≠ 0#64) (j : Nat) :
    (w &&& (w - 1#64)).getLsbD j = (w.getLsbD j && decide (j ≠ lowest w)) := by
  have hl := lowest_lt h
  have hset := getLsbD_lowest h
  have hlow := fun j (hj : j < lowest w) => getLsbD_of_lt_lowest hj
  generalize lowest w = l at *
  obtain ⟨n, hn⟩ : ∃ n, w.toNat = n := ⟨_, rfl⟩
  have hbit : ∀ j, w.getLsbD j = n.testBit j := fun j => by rw [BitVec.getLsbD, hn]
  have hlt : n < 2 ^ 64 := hn ▸ w.isLt
  -- below its lowest bit the word is zero
  have hmod : n % 2 ^ (l + 1) = 2 ^ l := by
    apply Nat.eq_of_testBit_eq
    intro i
    rw [Nat.testBit_mod_two_pow, Nat.testBit_two_pow]
    rcases Nat.lt_trichotomy i l with hi | hi | hi
    · rw [← hbit, hlow i hi]; simp; omega
    · subst hi; rw [← hbit, hset]; simp
    · have : ¬ i < l + 1 := by omega
      simp [this]; omega
  have hsplit : n = 2 ^ (l + 1) * (n / 2 ^ (l + 1)) + 2 ^ l := by
    conv => lhs; rw [← Nat.div_add_mod n (2 ^ (l + 1)), hmod]
  have hpred : (w - 1#64).toNat = 2 ^ (l + 1) * (n / 2 ^ (l + 1)) + (2 ^ l - 1) := by
    have hpos : 0 < 2 ^ l := Nat.two_pow_pos l
    rw [BitVec.toNat_sub, hn]
    simp only [BitVec.toNat_ofNat]
    omega
  have hp : 2 ^ l < 2 ^ (l + 1) := Nat.pow_lt_pow_right (by decide) (by omega)
  have hpbit : (w - 1#64).getLsbD j =
      if j < l + 1 then (2 ^ l - 1).testBit j else (n / 2 ^ (l + 1)).testBit (j - (l + 1)) := by
    rw [BitVec.getLsbD, hpred, Nat.testBit_two_pow_mul_add _ (by omega)]
  rw [BitVec.getLsbD_and, hpbit]
  rcases Nat.lt_trichotomy j l with hj | hj | hj
  · rw [hlow j hj]; simp
  · subst hj; simp [Nat.testBit_two_pow_sub_one]
  · have hn' : ¬ j < l + 1 := by omega
    have hne : j ≠ l := by omega
    have : w.getLsbD j = (n / 2 ^ (l + 1)).testBit (j - (l + 1)) := by
      rw [hbit]
      conv => lhs; rw [hsplit]
      rw [Nat.testBit_two_pow_mul_add _ hp, if_neg hn']
    rw [if_neg hn', ← this]
    simp [hne]

theorem mem_ones {w : BitWord} {i : Nat} : i ∈ ones w ↔ w.getLsbD i = true := by
  fun_induction ones w with
  | case1 => simp
  | case2 w h ih =>
    rw [List.mem_cons, ih, getLsbD_and_pred h]
    by_cases hi : i = lowest w
    · simp [hi, getLsbD_lowest h]
    · simp [hi]

theorem ones_pairwise (w : BitWord) : (ones w).Pairwise (· < ·) := by
  fun_induction ones w with
  | case1 => exact .nil
  | case2 w h ih =>
    refine .cons (fun i hi => ?_) ih
    rw [mem_ones, getLsbD_and_pred h] at hi
    simp at hi
    rcases Nat.lt_trichotomy i (lowest w) with hlt | heq | hgt
    · rw [getLsbD_of_lt_lowest hlt] at hi; simp at hi
    · exact absurd heq hi.2
    · exact hgt

theorem length_ones (w : BitWord) : (ones w).length = count w := by
  have hnodup : (ones w).Nodup := (ones_pairwise w).imp fun h => Nat.ne_of_lt h
  have hperm : (ones w).Perm ((List.range wordBits).filter w.getLsbD) := by
    rw [List.perm_ext_iff_of_nodup hnodup (List.nodup_range.filter _)]
    intro i
    rw [mem_ones, List.mem_filter, List.mem_range]
    constructor
    · intro h
      exact ⟨BitVec.lt_of_getLsbD h, h⟩
    · exact fun h => h.2
  rw [hperm.length_eq, count, List.countP_eq_length_filter]

end AllocChain.BitWord
