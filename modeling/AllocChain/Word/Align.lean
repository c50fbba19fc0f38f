import AllocChain.Word.Basic

/-!
Powers of two and rounding up to them. `roundUp` masks the low bits of `v + a - 1` and faults
where one of its three steps leaves the words; `alignUp?` asks first whether `v + (a - 1)` is a
word and answers `none` if it is not.
-/

namespace AllocChain.Word

/-- A power of two is two to its own logarithm; zero is none. -/
def isPowerOfTwo (n : Nat) : Bool := n != 0 && 2 ^ n.log2 == n

/-- The least power of two that is at least `n`, if it is a word. -/
def nextPowerOfTwo? (n : Nat) : Option Nat :=
  let p := if n ≤ 1 then 1 else 2 ^ ((n - 1).log2 + 1)
  if p < wordLimit then some p else none

/-- The exponent of a power of two; any other number faults. -/
def log2 (value : Nat) : Except Fault Nat :=
  if isPowerOfTwo value then .ok value.log2 else .error .valueNotPowerOfTwo

/-- `v + a - 1` without the bits of `a - 1`, computed from left to right. -/
def roundUp (v a : Nat) : Except Fault Nat := do
  let sum ← add v a
  let top ← sub sum 1
  let low ← sub a 1
  return top &&& complement low

/-- The bytes of a word: what `roundUp` rounds to where no alignment is named. -/
def bytes : Nat := 8

/-- `v` rounded up to the power of two `a`, or `none` if `v + (a - 1)` is no word. An `a` that is
no power of two faults, and so does a `v` with `v + a` beyond the last word. -/
def alignUp? (v a : Nat) : Except Fault (Option Nat) :=
  if !isPowerOfTwo a then .error .alignNotPowerOfTwo
  else match add? v (a - 1) with
    | none => .ok none
    | some _ => some <$> roundUp v a

/-- Whether `v` has none of the bits of `a - 1`; a zero `a` faults. -/
def isAligned (v a : Nat) : Except Fault Bool := do
  let low ← sub a 1
  return v &&& low == 0

theorem isPowerOfTwo_two_pow (k : Nat) : isPowerOfTwo (2 ^ k) = true := by
  simp [isPowerOfTwo, Nat.log2_two_pow]

theorem isPowerOfTwo_iff {n : Nat} : isPowerOfTwo n = true ↔ ∃ k, n = 2 ^ k := by
  constructor
  · intro h
    simp only [isPowerOfTwo, Bool.and_eq_true, beq_iff_eq] at h
    exact ⟨n.log2, h.2.symm⟩
  · rintro ⟨k, rfl⟩
    exact isPowerOfTwo_two_pow k

end AllocChain.Word
