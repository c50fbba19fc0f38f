import AllocChain.Request.Error
import AllocChain.Word.Align

/-!
A request for memory is a size and an alignment. Alignment zero stands for one; a valid request
has a positive size and a power of two as its alignment.
-/

namespace AllocChain

/-- A size and an alignment, in bytes. -/
structure Layout where
  size : Nat
  align : Nat
  deriving DecidableEq, Repr

/-- Alignment zero means alignment one. -/
def normalizeAlign (align : Nat) : Nat := max align 1

namespace Layout

/-- The layout with its alignment normalized. A zero size or an alignment that is no power of two
is refused with the values that were given. -/
def validate (l : Layout) : Except AllocError Layout :=
  let align := normalizeAlign l.align
  if l.size = 0 ∨ Word.isPowerOfTwo align = false then .error (.invalidLayout l.size l.align)
  else .ok ⟨l.size, align⟩

/-- The layout of `n` elements in a row. -/
def array (element : Layout) (n : Nat) : Except AllocError Layout :=
  match Word.mul? element.size n with
  | none => .error .arrayOverflow
  | some size => .ok ⟨size, element.align⟩

end Layout

/-- The normalized alignment of a valid request. A zero size is refused first. -/
def checkRequest (size align : Nat) : Except AllocError Nat :=
  if size = 0 then .error .zeroSize else (·.align) <$> (Layout.mk size align).validate

theorem checkRequest_eq_ok_iff {size align a : Nat} :
    checkRequest size align = .ok a ↔
      size ≠ 0 ∧ Word.isPowerOfTwo (normalizeAlign align) = true ∧ a = normalizeAlign align := by
  by_cases hs : size = 0
  · simp [checkRequest, hs]
  · cases hp : Word.isPowerOfTwo (normalizeAlign align) <;>
      simp [checkRequest, Layout.validate, hs, hp, Functor.map, Except.map, eq_comm]

theorem checkRequest_eq_invalidLayout {size align : Nat} (hs : size ≠ 0)
    (hp : Word.isPowerOfTwo (normalizeAlign align) = false) :
    checkRequest size align = .error (.invalidLayout size align) := by
  simp [checkRequest, Layout.validate, hs, hp, Functor.map, Except.map]

end AllocChain
