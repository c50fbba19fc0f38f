import AllocChain.Bits.Basic
import AllocChain.Word.Basic

/-!
A row of bits whose length is chosen when it is made, packed in 64-bit words. A set bit marks a
used slot. The bits of the last word beyond the length stay clear.
-/

namespace AllocChain

/-- A row of `length` bits, packed. -/
structure Bitmap where
  words : List BitWord
  length : Nat
  deriving DecidableEq, Repr

namespace Bitmap

/-- A row of `length` clear bits. -/
def clear (length : Nat) : Bitmap :=
  ⟨List.replicate ((length + (wordBits - 1)) / wordBits) 0#64, length⟩

/-- Whether the bit is set; a bit beyond the length is not. -/
def get (b : Bitmap) (index : Nat) : Bool :=
  if index < b.length then
    let (word, mask) := bitPlace index
    b.words.getD word 0#64 &&& mask != 0#64
  else false

/-- Lets `f` change the word of bit `index`. A bit beyond the length faults before anything is
written. -/
def change (b : Bitmap) (index : Nat) (f : BitWord → BitWord → BitWord) : Changed Bitmap :=
  if index < b.length then
    let (word, mask) := bitPlace index
    ⟨.ok (), { b with words := b.words.modify word (f · mask) }⟩
  else ⟨.error .bitOutOfBounds, b⟩

/-- Sets bit `index`. -/
def set (b : Bitmap) (index : Nat) : Changed Bitmap := b.change index fun w mask => w ||| mask

/-- Clears bit `index`. -/
def unset (b : Bitmap) (index : Nat) : Changed Bitmap := b.change index fun w mask => w &&& ~~~mask

/-- The lowest clear bit of the words, counted from bit `offset`: full words are passed over. -/
def firstGap : List BitWord → Nat → Option Nat
  | [], _ => none
  | w :: ws, offset =>
    if w = BitVec.allOnes 64 then firstGap ws (offset + wordBits)
    else some (offset + BitWord.lowest (~~~w))

/-- The lowest clear bit, if there is one below the length. -/
def firstClear (b : Bitmap) : Option Nat :=
  match firstGap b.words 0 with
  | some index => if index < b.length then some index else none
  | none => none

/-- How many bits are set. -/
def count (b : Bitmap) : Nat := (b.words.map BitWord.count).sum

/-- A row without bits. -/
def isEmpty (b : Bitmap) : Bool := b.length == 0

end Bitmap
end AllocChain
