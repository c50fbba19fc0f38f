import AllocChain.Bits.Bitmap
import AllocChain.Bits.BitSet

/-!
Sequences of calls on a bitmap or on a bit set, with one copy of it kept aside for comparison. The
copy is first one of the bits as they were made.
-/

namespace AllocChain

/-- What a call on bits gives back. -/
inductive BitValue where
  | nothing
  | index (i : Option Nat)
  | flag (b : Bool)
  | number (n : Nat)
  | members (l : List Nat)
  deriving DecidableEq, Repr

/-- The bits as they are now, and the copy. -/
structure Kept (α : Type) where
  now : α
  copy : α

/-- The answer to a call that changes the bits: `value`, unless the change faults. -/
def answerTo {α : Type} (s : Kept α) (value : BitValue) (o : Changed α) :
    Except Fault BitValue × Kept α :=
  ((fun _ => value) <$> o.ended, { s with now := o.left })

/-- A call on a bitmap. -/
inductive BitmapCall where
  | set (index : Nat)
  | unset (index : Nat)
  /-- Sets the bits from `first` up to the one before `stop`, as far as there are any. -/
  | setRange (first stop : Nat)
  | unsetRange (first stop : Nat)
  /-- Sets the lowest clear bit. -/
  | take
  | get (index : Nat)
  | length
  | isEmpty
  | keep
  | eqCopy
  | eqClear (length : Nat)
  deriving DecidableEq, Repr

namespace Bitmap

/-- Applies `f` to `count` bits from `first` on, and stops at a fault: what was done stays. -/
def sweep (f : Bitmap → Nat → Changed Bitmap) (b : Bitmap) (first : Nat) : Nat → Changed Bitmap
  | 0 => ⟨.ok (), b⟩
  | count + 1 =>
    match f b first with
    | ⟨.error e, b⟩ => ⟨.error e, b⟩
    | ⟨.ok (), b⟩ => sweep f b (first + 1) count

/-- One call, with the copy beside. Taking sets the lowest clear bit, if there is one, and tells
which. -/
def call (s : Kept Bitmap) : BitmapCall → Except Fault BitValue × Kept Bitmap
  | .set i => answerTo s .nothing (s.now.set i)
  | .unset i => answerTo s .nothing (s.now.unset i)
  | .setRange first stop => answerTo s .nothing (sweep set s.now first (stop - first))
  | .unsetRange first stop => answerTo s .nothing (sweep unset s.now first (stop - first))
  | .take =>
    match s.now.firstClear with
    | none => (.ok (.index none), s)
    | some i => answerTo s (.index (some i)) (s.now.set i)
  | .get i => (.ok (.flag (s.now.get i)), s)
  | .length => (.ok (.number s.now.length), s)
  | .isEmpty => (.ok (.flag s.now.isEmpty), s)
  | .keep => (.ok .nothing, { s with copy := s.now })
  | .eqCopy => (.ok (.flag (s.now == s.copy)), s)
  | .eqClear length => (.ok (.flag (s.now == clear length)), s)

end Bitmap

/-- A call on a bit set. -/
inductive BitSetCall where
  | insert (index : Nat)
  | erase (index : Nat)
  | test (index : Nat)
  | ones
  | keep
  | eqCopy
  deriving DecidableEq, Repr

namespace BitSet

variable {W : Nat}

/-- One call, with the copy beside. -/
def call (s : Kept (BitSet W)) : BitSetCall → Except Fault BitValue × Kept (BitSet W)
  | .insert i => answerTo s .nothing (s.now.insert i)
  | .erase i => answerTo s .nothing (s.now.erase i)
  | .test i => (.ok (.flag (s.now.test i)), s)
  | .ones => (.ok (.members s.now.ones), s)
  | .keep => (.ok .nothing, { s with copy := s.now })
  | .eqCopy => (.ok (.flag (s.now == s.copy)), s)

end BitSet
end AllocChain
