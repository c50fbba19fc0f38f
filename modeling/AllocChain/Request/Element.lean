import AllocChain.Request.Layout

/-!
The layouts of some element types: unsigned numbers of one to sixteen bytes, the type with one
value, and three composite types.
-/

namespace AllocChain

/-- An element type whose layout is known. -/
inductive Element where
  /-- The type with one value. -/
  | unit
  /-- An unsigned number of `2 ^ k` bytes, aligned to its size. -/
  | number (k : Fin 5)
  /-- Three single bytes. -/
  | threeBytes
  /-- Five numbers of two bytes. -/
  | fiveShorts
  /-- A number of four bytes between two smaller ones, padded to a multiple of its alignment. -/
  | mixed
  deriving DecidableEq, Repr

/-- Size and alignment of one element. -/
def Element.layout : Element → Layout
  | unit => ⟨0, 1⟩
  | number k => ⟨2 ^ k.val, 2 ^ k.val⟩
  | threeBytes => ⟨3, 1⟩
  | fiveShorts => ⟨10, 2⟩
  | mixed => ⟨12, 4⟩

end AllocChain
