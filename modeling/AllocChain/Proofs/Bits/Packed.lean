import AllocChain.Bits.Lemmas
import AllocChain.Word.Basic

/-!
Rows of packed words as rows of bits. `bitAt` reads a bit; changing the word of one bit through a
mask changes that bit and no other (`bitAt_modify_or`, `bitAt_modify_and_not`), and counting words
counts bits (`sum_count`).
-/

namespace AllocChain.BitWord

/-- Bit `i` of a row of words; it is clear beyond the last word. -/
def bitAt (ws : List BitWord) (i : Nat) : Bool :=
  (ws.getD (i / wordBits) 0#64).getLsbD (i % wordBits)

theorem mod_wordBits_lt (i : Nat) : i % wordBits < 64 := Nat.mod_lt i (by decide)

theorem getLsbD_mask (k j : Nat) (hk : k < 64) :
    (1#64 <<< k).getLsbD j = decide (j = k) := by
  rw [BitVec.getLsbD_shiftLeft, BitVec.getLsbD_one]
  rcases Nat.lt_trichotomy j k with h | h | h
  · simp [h, Nat.ne_of_lt h]
  · subst h; simp [hk]
  · have h1 : ¬ j < k := by omega
    have h2 : ¬ j - k = 0 := by omega
    have h3 : j ≠ k := by omega
    simp [h1, h2, h3]

theorem and_mask_ne_zero (w : BitWord) {k : Nat} (hk : k < 64) :
    (w &&& 1#64 <<< k != 0#64) = w.getLsbD k := by
  cases hw : w.getLsbD k with
  | true =>
    rw [bne_iff_ne]
    intro h
    have := congrArg (·.getLsbD k) h
    simp [getLsbD_mask k k hk, hw] at this
  | false =>
    have : w &&& 1#64 <<< k = 0#64 := by
      apply BitVec.eq_of_getLsbD_eq
      intro j hj
      rw [BitVec.getLsbD_and, getLsbD_mask k j hk]
      by_cases h : j = k
      · subst h; simp [hw]
      · simp [h]
    simp [this]

@[simp]
theorem bitAt_nil (i : Nat) : bitAt [] i = false := by
  simp [bitAt]

theorem bitAt_cons (w : BitWord) (ws : List BitWord) (i : Nat) :
    bitAt (w :: ws) i = if i < wordBits then w.getLsbD i else bitAt ws (i - wordBits) := by
  simp only [bitAt]
  split
  · rename_i h
    rw [Nat.div_eq_of_lt h, Nat.mod_eq_of_lt h]
    rfl
  · rename_i h
    have hi : i = (i - wordBits) + wordBits := by omega
    have hdiv : i / wordBits = (i - wordBits) / wordBits + 1 := by
      conv => lhs; rw [hi]
      exact Nat.add_div_right _ (by decide)
    have hmod : i % wordBits = (i - wordBits) % wordBits := by
      conv => lhs; rw [hi]
      exact Nat.add_mod_right _ _
    rw [hdiv, hmod]
    rfl

theorem bitAt_of_le {ws : List BitWord} {i : Nat} (h : ws.length * wordBits ≤ i) :
    bitAt ws i = false := by
  have : ws.length ≤ i / wordBits := (Nat.le_div_iff_mul_le (by decide)).2 h
  simp [bitAt, List.getD_eq_getElem?_getD, List.getElem?_eq_none this]

theorem ext_bitAt {ws ws' : List BitWord} (hlen : ws.length = ws'.length)
    (h : ∀ i, bitAt ws i = bitAt ws' i) : ws = ws' := by
  refine List.ext_getElem hlen fun n hn hn' => BitVec.eq_of_getLsbD_eq fun j hj => ?_
  have hdiv : (n * wordBits + j) / wordBits = n := by
    simp only [wordBits]
    omega
  have hmod : (n * wordBits + j) % wordBits = j := by
    simp only [wordBits]
    omega
  have hbit := h (n * wordBits + j)
  simpa [bitAt, hdiv, hmod, hn, hn'] using hbit

theorem bitAt_modify {ws : List BitWord} {n : Nat} (hn : n < ws.length) (f : BitWord → BitWord)
    (i : Nat) : bitAt (ws.modify n f) i =
      if i / wordBits = n then (f ws[n]).getLsbD (i % wordBits) else bitAt ws i := by
  simp only [bitAt]
  rw [List.getD_eq_getElem?_getD, List.getElem?_modify]
  split
  · rename_i h
    rw [if_pos h.symm, ← h]
    subst h
    simp [hn]
  · rename_i h
    rw [if_neg (fun h' => h h'.symm)]
    simp [List.getD_eq_getElem?_getD]

/-- Bits of one word are told apart by their place in it. -/
theorem decide_mod_eq {i k : Nat} (h : i / wordBits = k / wordBits) :
    decide (i % wordBits = k % wordBits) = decide (i = k) := by
  refine decide_eq_decide.2 ⟨?_, fun he => he ▸ rfl⟩
  intro hm
  rw [← Nat.div_add_mod i wordBits, h, hm, Nat.div_add_mod]

theorem bitAt_modify_or {ws : List BitWord} {k : Nat} (hk : k / wordBits < ws.length) (i : Nat) :
    bitAt (ws.modify (k / wordBits) (· ||| 1#64 <<< (k % wordBits))) i =
      (decide (i = k) || bitAt ws i) := by
  rw [bitAt_modify hk]
  split
  · rename_i h
    rw [BitVec.getLsbD_or, getLsbD_mask _ _ (mod_wordBits_lt k), decide_mod_eq h, bitAt, h,
      List.getD_eq_getElem?_getD, List.getElem?_eq_getElem hk, Bool.or_comm]
    rfl
  · rename_i h
    have : i ≠ k := fun he => h (he ▸ rfl)
    simp [this]

theorem bitAt_modify_and_not {ws : List BitWord} {k : Nat} (hk : k / wordBits < ws.length)
    (i : Nat) : bitAt (ws.modify (k / wordBits) (· &&& ~~~(1#64 <<< (k % wordBits)))) i =
      (decide (i ≠ k) && bitAt ws i) := by
  rw [bitAt_modify hk]
  split
  · rename_i h
    rw [BitVec.getLsbD_and, BitVec.getLsbD_not, getLsbD_mask _ _ (mod_wordBits_lt k),
      decide_mod_eq h, bitAt, h, List.getD_eq_getElem?_getD, List.getElem?_eq_getElem hk,
      Bool.and_comm]
    simp [mod_wordBits_lt i]
  · rename_i h
    have : i ≠ k := fun he => h (he ▸ rfl)
    simp [this]

theorem sum_count (ws : List BitWord) :
    (ws.map count).sum = (List.range (ws.length * wordBits)).countP (bitAt ws) := by
  induction ws with
  | nil => simp
  | cons w ws ih =>
    have hlen : (w :: ws).length * wordBits = wordBits + ws.length * wordBits := by
      rw [List.length_cons, Nat.add_mul, Nat.one_mul, Nat.add_comm]
    have hhead : count w = (List.range wordBits).countP (bitAt (w :: ws)) := by
      refine List.countP_congr ?_
      intro i hi
      rw [bitAt_cons, if_pos (List.mem_range.1 hi)]
    have htail : (List.range (ws.length * wordBits)).countP (bitAt ws) =
        (List.range (ws.length * wordBits)).countP (bitAt (w :: ws) ∘ (wordBits + ·)) := by
      refine List.countP_congr ?_
      intro i _
      rw [Function.comp_apply, bitAt_cons, if_neg (by omega), Nat.add_sub_cancel_left]
    rw [List.map_cons, List.sum_cons, ih, hlen, List.range_add, List.countP_append,
      List.countP_map, hhead, htail]

end AllocChain.BitWord
