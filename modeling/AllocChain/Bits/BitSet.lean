import AllocChain.Bits.Basic
import AllocChain.Word.Basic

/-!
A set of numbers below `64 * W`, one bit each in `W` packed words.
-/

namespace AllocChain

/-- A set of numbers below `64 * W`. -/
structure BitSet (W : Nat) where
  words : Vector BitWord W
  deriving DecidableEq, Repr

namespace BitSet

variable {W : Nat}

/-- How many numbers the set can tell apart. -/
def capacity (W : Nat) : Nat := W * wordBits

/-- The set without members. -/
def empty : BitSet W := ⟨Vector.replicate W 0#64⟩

/-- Whether `index` is a member; a number beyond the capacity is not. -/
def test (s : BitSet W) (index : Nat) : Bool :=
  let (word, mask) := bitPlace index
  if h : word < W then s.words[word] &&& mask != 0#64 else false

/-- Lets `f` change the word of `index`. A number beyond the capacity faults before anything is
written. -/
def change (s : BitSet W) (index : Nat) (f : BitWord → BitWord → BitWord) : Changed (BitSet W) :=
  let (word, mask) := bitPlace index
  if h : word < W then ⟨.ok (), ⟨s.words.set word (f s.words[word] mask)⟩⟩
  else ⟨.error (.indexOutOfBounds W word), s⟩

/-- Puts `index` in. -/
def insert (s : BitSet W) (index : Nat) : Changed (BitSet W) :=
  s.change index fun w mask => w ||| mask

/-- Takes `index` out. -/
def erase (s : BitSet W) (index : Nat) : Changed (BitSet W) :=
  s.change index fun w mask => w &&& ~~~mask

/-- Whether the set has no members. -/
def isEmpty (s : BitSet W) : Bool := s.words.toList.all (· == 0#64)

/-- The number of members. -/
def count (s : BitSet W) : Nat := (s.words.toList.map BitWord.count).sum

/-- The set bits of the words, counted from `offset`. -/
def onesFrom : List BitWord → Nat → List Nat
  | [], _ => []
  | w :: ws, offset => (BitWord.ones w).map (offset + ·) ++ onesFrom ws (offset + wordBits)

/-- The members, in ascending order. -/
def ones (s : BitSet W) : List Nat := onesFrom s.words.toList 0

end BitSet
end AllocChain
