import AllocChain.Word.Basic

/-!
One 64-bit word as a row of bits: its lowest set bit, how many bits are set, and the list of the
set bits in ascending order.
-/

namespace AllocChain

/-- How a change in place ended, and the state that it left, which is there after a fault too. -/
structure Changed (σ : Type) where
  ended : Except Fault Unit
  left : σ

/-- What a change in place has led to, or its fault. -/
def Changed.result {σ : Type} (o : Changed σ) : Except Fault σ := (fun _ => o.left) <$> o.ended

theorem Changed.result_eq_ok_iff {σ : Type} {o : Changed σ} {s : σ} :
    o.result = .ok s ↔ o.ended = .ok () ∧ s = o.left := by
  obtain ⟨ended, left⟩ := o
  cases ended <;> simp [result, Functor.map, Except.map, eq_comm]

/-- Sixty-four bits packed in one word. -/
abbrev BitWord := BitVec 64

/-- The number of bits in a packed word. -/
def wordBits : Nat := 64

/-- Where bit `index` of a row of packed words lies: its word, and the mask of its bit there. -/
def bitPlace (index : Nat) : Nat × BitWord := (index / wordBits, 1#64 <<< (index % wordBits))

namespace BitWord

/-- The position of the lowest set bit, 64 if there is none. -/
def lowest (w : BitWord) : Nat := ((List.range wordBits).find? w.getLsbD).getD wordBits

/-- How many bits are set. -/
def count (w : BitWord) : Nat := (List.range wordBits).countP w.getLsbD

/-- The set bits, the lowest first: taking one less and masking strikes out the lowest. -/
def ones (w : BitWord) : List Nat :=
  if w = 0#64 then [] else lowest w :: ones (w &&& (w - 1#64))
termination_by w.toNat
decreasing_by
  rename_i h
  have hpos : 0 < w.toNat := by
    rcases Nat.eq_zero_or_pos w.toNat with h0 | h0
    · exact absurd (BitVec.eq_of_toNat_eq (by simpa using h0)) h
    · exact h0
  have hsub : (w - 1#64).toNat = w.toNat - 1 := by
    have := w.isLt
    rw [BitVec.toNat_sub]; simp; omega
  have : (w &&& (w - 1#64)).toNat ≤ (w - 1#64).toNat := by
    rw [BitVec.toNat_and]; exact Nat.and_le_right
  omega

end BitWord
end AllocChain
