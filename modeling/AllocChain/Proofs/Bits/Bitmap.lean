import AllocChain.Bits.Bitmap
import AllocChain.Proofs.Bits.Packed

/-!
A bitmap as a row of bits. A packed bitmap has just as many words as its length needs and clear
bits behind the length; setting and clearing keep it so, and change one bit each (`get_set`,
`get_unset`). On a packed bitmap `count` counts the set bits (`count_eq`) and `firstClear` finds
the lowest clear one (`firstClear_eq_some_iff`, `firstClear_eq_none_iff`), and two packed bitmaps of
one length are the same if their bits are (`Packed.ext`).
-/

namespace AllocChain.Bitmap

open BitWord

/-- The words are as many as the length needs, and what lies behind the length is clear. -/
structure Packed (b : Bitmap) : Prop where
  words_length : b.words.length = (b.length + (wordBits - 1)) / wordBits
  padding : ∀ i, b.length ≤ i → bitAt b.words i = false

theorem get_eq (b : Bitmap) (i : Nat) : b.get i = (decide (i < b.length) && bitAt b.words i) := by
  simp only [get, bitPlace]
  split
  · rename_i h
    simp only [h, decide_true, Bool.true_and]
    exact and_mask_ne_zero _ (mod_wordBits_lt i)
  · rename_i h
    simp [h]

theorem Packed.get_eq_bitAt {b : Bitmap} (hb : b.Packed) (i : Nat) : b.get i = bitAt b.words i := by
  rw [get_eq]
  by_cases h : i < b.length
  · simp [h]
  · simp [h, hb.padding i (Nat.le_of_not_lt h)]

theorem lt_of_get {b : Bitmap} {i : Nat} (h : b.get i = true) : i < b.length := by
  rw [get_eq] at h
  simpa using (Bool.and_eq_true_iff.1 h).1

theorem Packed.ext {b b' : Bitmap} (hb : b.Packed) (hb' : b'.Packed)
    (hlen : b.length = b'.length) (h : ∀ i, b.get i = b'.get i) : b = b' := by
  have hwords : b.words = b'.words := by
    refine ext_bitAt ?_ fun i => ?_
    · rw [hb.words_length, hb'.words_length, hlen]
    · rw [← hb.get_eq_bitAt, ← hb'.get_eq_bitAt, h]
  obtain ⟨words, length⟩ := b
  obtain ⟨words', length'⟩ := b'
  obtain rfl : words = words' := hwords
  obtain rfl : length = length' := hlen
  rfl

theorem Packed.word_lt {b : Bitmap} (hb : b.Packed) {i : Nat} (h : i < b.length) :
    i / wordBits < b.words.length := by
  rw [hb.words_length]
  simp only [wordBits]
  omega

theorem packed_clear (length : Nat) : (clear length).Packed where
  words_length := by simp [clear]
  padding i _ := by
    simp only [clear, bitAt]
    rw [List.getD_eq_getElem?_getD, List.getElem?_replicate]
    split <;> simp

theorem get_clear (length i : Nat) : (clear length).get i = false := by
  rw [get_eq]
  simp only [clear, bitAt]
  rw [List.getD_eq_getElem?_getD, List.getElem?_replicate]
  split <;> simp

theorem change_eq_ok_iff {b b' : Bitmap} {i : Nat} {f : BitWord → BitWord → BitWord} :
    (b.change i f).result = .ok b' ↔
      i < b.length ∧
        b' = { b with words := b.words.modify (i / wordBits) (f · (1#64 <<< (i % wordBits))) } := by
  rw [Changed.result_eq_ok_iff]
  simp only [change, bitPlace]
  split
  · rename_i h
    simp [h]
  · rename_i h
    simp [h]

theorem set_returns {b : Bitmap} {i : Nat} (h : i < b.length) :
    ∃ b', (b.set i).result = .ok b' :=
  ⟨_, change_eq_ok_iff.2 ⟨h, rfl⟩⟩

theorem unset_returns {b : Bitmap} {i : Nat} (h : i < b.length) :
    ∃ b', (b.unset i).result = .ok b' :=
  ⟨_, change_eq_ok_iff.2 ⟨h, rfl⟩⟩

theorem length_set {b b' : Bitmap} {i : Nat} (h : (b.set i).result = .ok b') :
    b'.length = b.length := by
  obtain ⟨_, rfl⟩ := change_eq_ok_iff.1 h
  rfl

theorem length_unset {b b' : Bitmap} {i : Nat} (h : (b.unset i).result = .ok b') :
    b'.length = b.length := by
  obtain ⟨_, rfl⟩ := change_eq_ok_iff.1 h
  rfl

theorem Packed.set {b b' : Bitmap} {i : Nat} (hb : b.Packed) (h : (b.set i).result = .ok b') :
    b'.Packed := by
  obtain ⟨hi, rfl⟩ := change_eq_ok_iff.1 h
  refine ⟨by simpa using hb.words_length, ?_⟩
  intro j hj
  have hne : j ≠ i := Nat.ne_of_gt (Nat.lt_of_lt_of_le hi hj)
  rw [bitAt_modify_or (hb.word_lt hi), hb.padding j hj]
  simp [hne]

theorem Packed.unset {b b' : Bitmap} {i : Nat} (hb : b.Packed) (h : (b.unset i).result = .ok b') :
    b'.Packed := by
  obtain ⟨hi, rfl⟩ := change_eq_ok_iff.1 h
  refine ⟨by simpa using hb.words_length, ?_⟩
  intro j hj
  rw [bitAt_modify_and_not (hb.word_lt hi), hb.padding j hj, Bool.and_false]

theorem get_set {b b' : Bitmap} {i : Nat} (hb : b.Packed) (h : (b.set i).result = .ok b')
    (j : Nat) : b'.get j = (decide (j = i) || b.get j) := by
  rw [(hb.set h).get_eq_bitAt, hb.get_eq_bitAt]
  obtain ⟨hi, rfl⟩ := change_eq_ok_iff.1 h
  exact bitAt_modify_or (hb.word_lt hi) j

theorem get_unset {b b' : Bitmap} {i : Nat} (hb : b.Packed) (h : (b.unset i).result = .ok b')
    (j : Nat) : b'.get j = (decide (j ≠ i) && b.get j) := by
  rw [(hb.unset h).get_eq_bitAt, hb.get_eq_bitAt]
  obtain ⟨hi, rfl⟩ := change_eq_ok_iff.1 h
  exact bitAt_modify_and_not (hb.word_lt hi) j

/-- Clearing a bit that was clear before it was set restores the row. -/
theorem unset_set {b b' : Bitmap} {i : Nat} (hb : b.Packed) (h : (b.set i).result = .ok b')
    (hi : b.get i = false) : (b'.unset i).result = .ok b := by
  obtain ⟨hlt, rfl⟩ := change_eq_ok_iff.1 h
  have hword := hb.word_lt hlt
  rw [hb.get_eq_bitAt] at hi
  refine change_eq_ok_iff.2 ⟨hlt, ?_⟩
  have hwords : b.words = (b.words.modify (i / wordBits) (· ||| 1#64 <<< (i % wordBits))).modify
      (i / wordBits) (· &&& ~~~(1#64 <<< (i % wordBits))) := by
    refine ext_bitAt (by simp) fun j => ?_
    rw [bitAt_modify_and_not (by simpa using hword), bitAt_modify_or hword]
    by_cases hj : j = i
    · rw [hj, hi]
      simp
    · simp [hj]
  obtain ⟨words, length⟩ := b
  exact congrArg (Bitmap.mk · length) hwords

/-- The set bits, in ascending order. -/
def taken (b : Bitmap) : List Nat := (List.range b.length).filter b.get

theorem mem_taken {b : Bitmap} {i : Nat} : i ∈ b.taken ↔ b.get i = true := by
  rw [taken, List.mem_filter, List.mem_range]
  exact ⟨fun h => h.2, fun h => ⟨lt_of_get h, h⟩⟩

theorem nodup_taken (b : Bitmap) : b.taken.Nodup := List.nodup_range.filter _

theorem Packed.count_eq {b : Bitmap} (hb : b.Packed) : b.count = b.taken.length := by
  have hle : b.length ≤ b.words.length * wordBits := by
    rw [hb.words_length]
    simp only [wordBits]
    omega
  obtain ⟨extra, hextra⟩ := Nat.exists_eq_add_of_le hle
  have hbits : (List.range b.length).countP (bitAt b.words) =
      (List.range b.length).countP b.get :=
    List.countP_congr fun i _ => by rw [hb.get_eq_bitAt]
  have hrest : (List.range extra).countP (bitAt b.words ∘ (b.length + ·)) = 0 := by
    refine List.countP_eq_zero.2 ?_
    intro i _
    rw [Function.comp_apply, hb.padding _ (Nat.le_add_right _ _)]
    decide
  rw [count, sum_count, hextra, List.range_add, List.countP_append, List.countP_map, hrest, hbits,
    taken, List.countP_eq_length_filter, Nat.add_zero]

theorem taken_clear (length : Nat) : (clear length).taken = [] :=
  List.filter_eq_nil_iff.2 fun i _ => by simp [get_clear]

/-- Setting a clear bit adds it to the set ones. -/
theorem taken_set {b b' : Bitmap} {i : Nat} (hb : b.Packed) (h : (b.set i).result = .ok b')
    (hi : b.get i = false) : b'.taken.Perm (i :: b.taken) := by
  have hnot : i ∉ b.taken := fun hmem => by simp [mem_taken.1 hmem] at hi
  rw [List.perm_ext_iff_of_nodup b'.nodup_taken (List.nodup_cons.2 ⟨hnot, b.nodup_taken⟩)]
  intro j
  rw [mem_taken, get_set hb h, List.mem_cons, mem_taken]
  simp

theorem taken_unset {b b' : Bitmap} {i : Nat} (hb : b.Packed) (h : (b.unset i).result = .ok b')
    (hi : b.get i = true) : b.taken.Perm (i :: b'.taken) := by
  have hnot : i ∉ b'.taken := fun hmem => by
    have := mem_taken.1 hmem
    simp [get_unset hb h] at this
  rw [List.perm_ext_iff_of_nodup b.nodup_taken (List.nodup_cons.2 ⟨hnot, b'.nodup_taken⟩)]
  intro j
  rw [mem_taken, List.mem_cons, mem_taken, get_unset hb h]
  by_cases hj : j = i
  · subst hj; simp [hi]
  · simp [hj]

/-- What the scan for a clear bit finds: the lowest one, or that there is none in the words. -/
theorem firstGap_spec (ws : List BitWord) (offset : Nat) :
    match firstGap ws offset with
    | some i => ∃ k, i = offset + k ∧ k < ws.length * wordBits ∧ bitAt ws k = false ∧
        ∀ j, j < k → bitAt ws j = true
    | none => ∀ j, j < ws.length * wordBits → bitAt ws j = true := by
  induction ws generalizing offset with
  | nil => simp [firstGap]
  | cons w ws ih =>
    have hlen : (w :: ws).length * wordBits = wordBits + ws.length * wordBits := by
      rw [List.length_cons, Nat.add_mul, Nat.one_mul, Nat.add_comm]
    rw [hlen, firstGap]
    by_cases hw : w = BitVec.allOnes 64
    · have hhead : ∀ j, j < wordBits → bitAt (w :: ws) j = true := fun j hj => by
        rw [bitAt_cons, if_pos hj, hw, BitVec.getLsbD_allOnes]
        exact decide_eq_true hj
      have htail : ∀ j, wordBits ≤ j → bitAt (w :: ws) j = bitAt ws (j - wordBits) := fun j hj => by
        rw [bitAt_cons, if_neg (Nat.not_lt.2 hj)]
      have hrec := ih (offset + wordBits)
      rw [if_pos hw]
      cases hgap : firstGap ws (offset + wordBits) with
      | none =>
        rw [hgap] at hrec
        intro j hj
        rcases Nat.lt_or_ge j wordBits with hlt | hge
        · exact hhead j hlt
        · rw [htail j hge]
          exact hrec _ (by omega)
      | some i =>
        rw [hgap] at hrec
        obtain ⟨k, rfl, hk, hclear, hbefore⟩ := hrec
        refine ⟨wordBits + k, by omega, by omega, ?_, ?_⟩
        · rw [htail _ (by omega), Nat.add_sub_cancel_left, hclear]
        · intro j hj
          rcases Nat.lt_or_ge j wordBits with hlt | hge
          · exact hhead j hlt
          · rw [htail j hge]
            exact hbefore _ (by omega)
    · have hne : ~~~w ≠ 0#64 := fun h => hw (by
        have := congrArg (~~~ ·) h
        simpa using this)
      have hlow := lowest_lt hne
      have hbit : ∀ j, j < 64 → bitAt (w :: ws) j = w.getLsbD j := fun j hj => by
        rw [bitAt_cons]
        exact if_pos hj
      rw [if_neg hw]
      refine ⟨lowest (~~~w), rfl, ?_, ?_, ?_⟩
      · simp only [wordBits]; omega
      · have := getLsbD_lowest hne
        rw [hbit _ hlow]
        simpa [hlow] using this
      · intro j hj
        have := getLsbD_of_lt_lowest hj
        rw [hbit j (by omega)]
        simpa [show j < 64 by omega] using this

theorem Packed.firstClear_eq_some_iff {b : Bitmap} (hb : b.Packed) {i : Nat} :
    b.firstClear = some i ↔
      i < b.length ∧ b.get i = false ∧ ∀ j, j < i → b.get j = true := by
  have hle : b.length ≤ b.words.length * wordBits := by
    rw [hb.words_length]
    simp only [wordBits]
    omega
  have hspec := firstGap_spec b.words 0
  simp only [firstClear, hb.get_eq_bitAt]
  cases hgap : firstGap b.words 0 with
  | none =>
    rw [hgap] at hspec
    simp only [reduceCtorEq, false_iff, not_and]
    intro hi hclear
    simp [hspec i (by omega)] at hclear
  | some k =>
    rw [hgap] at hspec
    obtain ⟨_, rfl, _, hclear, hbefore⟩ := hspec
    simp only [Nat.zero_add]
    constructor
    · intro h
      split at h
      · rename_i hlt
        cases h
        exact ⟨hlt, hclear, hbefore⟩
      · cases h
    · rintro ⟨hi, hi0, hi1⟩
      rename_i k _
      have : k = i := by
        rcases Nat.lt_trichotomy k i with h | h | h
        · simp [hi1 k h] at hclear
        · exact h
        · simp [hbefore i h] at hi0
      subst this
      rw [if_pos hi]

theorem Packed.firstClear_eq_none_iff {b : Bitmap} (hb : b.Packed) :
    b.firstClear = none ↔ ∀ i, i < b.length → b.get i = true := by
  constructor
  · intro h i
    -- the lowest clear bit would have been found
    induction i using Nat.strongRecOn with
    | ind i ih =>
      intro hi
      cases hget : b.get i with
      | true => rfl
      | false =>
        have := hb.firstClear_eq_some_iff.2 ⟨hi, hget, fun j hj => ih j hj (by omega)⟩
        rw [h] at this
        cases this
  · intro h
    cases hf : b.firstClear with
    | none => rfl
    | some i =>
      obtain ⟨hi, hget, _⟩ := hb.firstClear_eq_some_iff.1 hf
      rw [h i hi] at hget
      cases hget

end AllocChain.Bitmap
