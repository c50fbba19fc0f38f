/-!
Machine words are the natural numbers below `2 ^ 64`. Word arithmetic never wraps round: an
operation either gives the exact result, or it faults (`Word.add`, `Word.sub`, `Word.mul`), or it
answers `none` (`Word.add?`, `Word.mul?`), whichever the place of use asks for.
-/

-- Powers and sums of numbers are those of the core library, whatever else is in scope.
attribute [instance (10001), default_instance (10001)] instPowNat
attribute [instance (10001)] Zero.ofOfNat0

namespace AllocChain

/-- The ways a computation can break off. A fault leaves no state behind. -/
inductive Fault where
  | addOverflow
  | subOverflow
  | mulOverflow
  | alignNotPowerOfTwo
  | valueNotPowerOfTwo
  | bitOutOfBounds
  | chunkBelowAlign
  | copyOverlap
  | indexOutOfBounds (length index : Nat)
  deriving DecidableEq, Repr

/-- The wording of a fault. -/
def Fault.message : Fault → String
  | .addOverflow => "attempt to add with overflow"
  | .subOverflow => "attempt to subtract with overflow"
  | .mulOverflow => "attempt to multiply with overflow"
  | .alignNotPowerOfTwo => "assertion failed: align.is_power_of_two()"
  | .valueNotPowerOfTwo => "assertion failed: value.is_power_of_two()"
  | .bitOutOfBounds => "bit index out of bounds"
  | .chunkBelowAlign => "assertion failed: chunk.align >= align"
  | .copyOverlap => "the ranges of a copy overlap"
  | .indexOutOfBounds length index =>
    "index out of bounds: the len is " ++ toString length ++ " but the index is " ++ toString index

/-- Goes on if `p` holds, and faults if it does not. -/
def Fault.demand (p : Prop) [Decidable p] (fault : Fault) : Except Fault Unit :=
  if p then .ok () else .error fault

theorem Fault.demand_of {p : Prop} [Decidable p] (h : p) (fault : Fault) :
    Fault.demand p fault = .ok () := if_pos h

theorem Fault.demand_of_not {p : Prop} [Decidable p] (h : ¬ p) (fault : Fault) :
    Fault.demand p fault = .error fault := if_neg h

/-- The first number that is not a machine word. -/
abbrev wordLimit : Nat := 2 ^ 64

namespace Word

/-- The sum, if it is a word. -/
def add? (a b : Nat) : Option Nat := if a + b < wordLimit then some (a + b) else none

/-- The product, if it is a word. -/
def mul? (a b : Nat) : Option Nat := if a * b < wordLimit then some (a * b) else none

/-- The sum, or a fault. -/
def add (a b : Nat) : Except Fault Nat :=
  if a + b < wordLimit then .ok (a + b) else .error .addOverflow

/-- The difference, or a fault. -/
def sub (a b : Nat) : Except Fault Nat :=
  if b ≤ a then .ok (a - b) else .error .subOverflow

/-- The product, or a fault. -/
def mul (a b : Nat) : Except Fault Nat :=
  if a * b < wordLimit then .ok (a * b) else .error .mulOverflow

/-- The word whose bits are those that `mask` lacks. -/
def complement (mask : Nat) : Nat := wordLimit - 1 - mask

theorem add_eq_ok_iff {a b c : Nat} : add a b = .ok c ↔ a + b < wordLimit ∧ a + b = c := by
  unfold add; split <;> simp <;> omega

theorem add_of_lt {a b : Nat} (h : a + b < wordLimit) : add a b = .ok (a + b) := by
  simp [add, h]

theorem sub_eq_ok_iff {a b c : Nat} : sub a b = .ok c ↔ b ≤ a ∧ a - b = c := by
  unfold sub; split <;> simp <;> omega

theorem sub_of_le {a b : Nat} (h : b ≤ a) : sub a b = .ok (a - b) := by
  simp [sub, h]

theorem add?_eq_some_iff {a b c : Nat} : add? a b = some c ↔ a + b < wordLimit ∧ a + b = c := by
  unfold add?; split <;> simp <;> omega

end Word
end AllocChain
