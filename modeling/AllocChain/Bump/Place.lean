import AllocChain.Word.Align

/-!
Where a bump allocator puts a block: at the first aligned address that is not below the used part
of its buffer, if the block then ends inside the buffer.
-/

namespace AllocChain

/-- The offset of a block of `size` bytes aligned to `align` in the buffer of `capacity` bytes at
`base`, when the bytes below offset `used` are taken; `none` if it does not fit. -/
def place (base capacity used size align : Nat) : Except Fault (Option Nat) := do
  let some lowest := Word.add? base used | return none
  let some aligned ← Word.alignUp? lowest align | return none
  let start ← Word.sub aligned base
  let some stop := Word.add? start size | return none
  return if capacity < stop then none else some start

end AllocChain
