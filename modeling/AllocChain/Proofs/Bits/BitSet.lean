import AllocChain.Bits.BitSet
import AllocChain.Proofs.Bits.Packed

/-!
A bit set as a set of numbers: its members are what `test` says, `insert` and `erase` change one
member (`test_insert`, `test_erase`), and `ones` lists exactly the members (`mem_ones`) in ascending
order (`ones_ascending`), as many as are counted (`length_ones`).
-/

namespace AllocChain.BitSet

open BitWord

variable {W : Nat}

theorem test_eq (s : BitSet W) (i : Nat) : s.test i = bitAt s.words.toList i := by
  unfold test bitPlace
  simp only
  split
  · rename_i h
    rw [and_mask_ne_zero _ (mod_wordBits_lt i), bitAt, List.getD_eq_getElem?_getD]
    simp [h]
  · rename_i h
    rw [bitAt_of_le]
    rw [Vector.length_toList]
    exact (Nat.le_div_iff_mul_le (by decide)).1 (Nat.le_of_not_lt h)

theorem test_empty (i : Nat) : (empty : BitSet W).test i = false := by
  rw [test_eq, empty, bitAt, List.getD_eq_getElem?_getD, Vector.toList_replicate,
    List.getElem?_replicate]
  split <;> simp

/-- A member below the capacity can be changed; the rest of the set stays. -/
theorem change_eq_ok_iff {s s' : BitSet W} {i : Nat} {f : BitWord → BitWord → BitWord} :
    (s.change i f).result = .ok s' ↔ i / wordBits < W ∧
      s'.words.toList = s.words.toList.modify (i / wordBits) (f · (1#64 <<< (i % wordBits))) := by
  rw [Changed.result_eq_ok_iff]
  unfold change bitPlace
  simp only
  split
  · rename_i h
    have hset :
        (s.words.set (i / wordBits) (f s.words[i / wordBits] (1#64 <<< (i % wordBits)))).toList =
        s.words.toList.modify (i / wordBits) (f · (1#64 <<< (i % wordBits))) := by
      rw [Vector.toList_set, List.modify_eq_set]
      simp [h]
    rw [← hset, Vector.toList_inj]
    constructor
    · rintro ⟨_, rfl⟩
      exact ⟨h, rfl⟩
    · rintro ⟨_, h'⟩
      exact ⟨rfl, congrArg BitSet.mk h'⟩
  · rename_i h
    simp [h]

theorem change_returns {s : BitSet W} {i : Nat} {f : BitWord → BitWord → BitWord}
    (h : i < capacity W) : ∃ s', (s.change i f).result = .ok s' := by
  have hword : i / wordBits < W := Nat.div_lt_of_lt_mul (Nat.mul_comm .. ▸ h)
  refine ⟨(s.change i f).left, Changed.result_eq_ok_iff.2 ⟨?_, rfl⟩⟩
  simp only [change, bitPlace]
  exact congrArg Changed.ended (dif_pos hword)

/-- A number beyond the capacity faults and changes nothing. -/
theorem change_beyond {s : BitSet W} {i : Nat} {f : BitWord → BitWord → BitWord}
    (h : capacity W ≤ i) : s.change i f = ⟨.error (.indexOutOfBounds W (i / wordBits)), s⟩ := by
  have hword : W ≤ i / wordBits := (Nat.le_div_iff_mul_le (by decide)).2 h
  simp only [change, bitPlace]
  exact dif_neg (Nat.not_lt.2 hword)

theorem lt_of_test {s : BitSet W} {i : Nat} (h : s.test i = true) : i < capacity W := by
  rcases Nat.lt_or_ge i (capacity W) with hlt | hge
  · exact hlt
  · rw [test_eq, bitAt_of_le (by simpa [capacity] using hge)] at h
    cases h

theorem test_insert {s s' : BitSet W} {i : Nat} (h : (s.insert i).result = .ok s') (j : Nat) :
    s'.test j = (decide (j = i) || s.test j) := by
  obtain ⟨hi, hw⟩ := change_eq_ok_iff.1 h
  rw [test_eq, hw, test_eq]
  exact bitAt_modify_or (by simpa using hi) j

theorem test_erase {s s' : BitSet W} {i : Nat} (h : (s.erase i).result = .ok s') (j : Nat) :
    s'.test j = (decide (j ≠ i) && s.test j) := by
  obtain ⟨hi, hw⟩ := change_eq_ok_iff.1 h
  rw [test_eq, hw, test_eq]
  exact bitAt_modify_and_not (by simpa using hi) j

theorem ext_test {s s' : BitSet W} (h : ∀ i, s.test i = s'.test i) : s = s' := by
  obtain ⟨words⟩ := s
  obtain ⟨words'⟩ := s'
  refine congrArg BitSet.mk (Vector.toList_inj.1 (ext_bitAt ?_ fun i => ?_))
  · rw [Vector.length_toList, Vector.length_toList]
  · have hi := h i
    rwa [test_eq, test_eq] at hi

theorem mem_onesFrom {ws : List BitWord} {offset i : Nat} :
    i ∈ onesFrom ws offset ↔ offset ≤ i ∧ bitAt ws (i - offset) = true := by
  induction ws generalizing offset with
  | nil => simp [onesFrom]
  | cons w ws ih =>
    rw [onesFrom, List.mem_append, List.mem_map, ih, bitAt_cons]
    constructor
    · rintro (⟨k, hk, rfl⟩ | ⟨hle, hbit⟩)
      · have hk := mem_ones.1 hk
        have : k < wordBits := BitVec.lt_of_getLsbD hk
        refine ⟨Nat.le_add_right _ _, ?_⟩
        rw [Nat.add_sub_cancel_left, if_pos this, hk]
      · refine ⟨by omega, ?_⟩
        rw [if_neg (by omega), Nat.sub_sub, hbit]
    · rintro ⟨hle, hbit⟩
      split at hbit
      · exact .inl ⟨i - offset, mem_ones.2 hbit, by omega⟩
      · exact .inr ⟨by omega, by rwa [Nat.sub_sub] at hbit⟩

/-- The list of the members has exactly the members. -/
theorem mem_ones {s : BitSet W} {i : Nat} : i ∈ s.ones ↔ s.test i = true := by
  rw [ones, mem_onesFrom, test_eq]
  simp

theorem onesFrom_ascending (ws : List BitWord) (offset : Nat) :
    (onesFrom ws offset).Pairwise (· < ·) := by
  induction ws generalizing offset with
  | nil => exact .nil
  | cons w ws ih =>
    rw [onesFrom, List.pairwise_append]
    refine ⟨?_, ih _, ?_⟩
    · rw [List.pairwise_map]
      exact (ones_pairwise w).imp fun h => Nat.add_lt_add_left h offset
    · -- what comes from the first word lies before all that comes from the others
      intro i hi j hj
      obtain ⟨k, hk, rfl⟩ := List.mem_map.1 hi
      have hlt : k < wordBits := BitVec.lt_of_getLsbD (BitWord.mem_ones.1 hk)
      have hle : offset + wordBits ≤ j := (mem_onesFrom.1 hj).1
      omega

theorem ones_ascending (s : BitSet W) : s.ones.Pairwise (· < ·) := onesFrom_ascending _ _

theorem length_onesFrom (ws : List BitWord) (offset : Nat) :
    (onesFrom ws offset).length = (ws.map BitWord.count).sum := by
  induction ws generalizing offset with
  | nil => rfl
  | cons w ws ih =>
    rw [onesFrom, List.length_append, List.length_map, BitWord.length_ones, ih, List.map_cons,
      List.sum_cons]

theorem length_ones (s : BitSet W) : s.ones.length = s.count := length_onesFrom _ _

theorem onesFrom_eq_nil {ws : List BitWord} {offset : Nat} :
    onesFrom ws offset = [] ↔ ∀ w ∈ ws, w = 0#64 := by
  induction ws generalizing offset with
  | nil => simp [onesFrom]
  | cons w ws ih =>
    have hword : BitWord.ones w = [] ↔ w = 0#64 := by
      rw [BitWord.ones]
      split <;> simp [*]
    rw [onesFrom, List.append_eq_nil_iff, List.map_eq_nil_iff, hword, ih, List.forall_mem_cons]

theorem isEmpty_iff (s : BitSet W) : s.isEmpty = true ↔ s.ones = [] := by
  rw [ones, onesFrom_eq_nil, isEmpty, List.all_eq_true]
  simp only [beq_iff_eq]

end AllocChain.BitSet
