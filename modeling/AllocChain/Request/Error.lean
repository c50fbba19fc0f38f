/-!
Why a request for memory is refused. Giving memory back is never refused, so there is no error
for it.
-/

namespace AllocChain

/-- Why a request is refused. -/
inductive AllocError where
  /-- A zero size, a missing buffer, or a block that the allocator does not own. -/
  | invalidInput (what : String)
  /-- A zero size, or an alignment that is no power of two. -/
  | invalidLayout (size align : Nat)
  /-- No room is left here, or in what stands behind. -/
  | outOfMemory (size align : Nat)
  deriving DecidableEq, Repr

namespace AllocError

/-- The wording of an error. -/
def message : AllocError → String
  | invalidInput what => "invalid input: " ++ what
  | invalidLayout size align =>
    "invalid layout: size = " ++ toString size ++ ", align = " ++ toString align
  | outOfMemory size align =>
    "out of memory: requested " ++ toString size ++ " bytes aligned to " ++ toString align

/-- Whether memory ran out, and not the caller erred. -/
def isOutOfMemory : AllocError → Bool
  | outOfMemory .. => true
  | _ => false

/-- A request for no bytes. -/
def zeroSize : AllocError := invalidInput "zero-sized allocation"

/-- An array with more bytes than there are addresses. -/
def arrayOverflow : AllocError := invalidInput "array size overflows usize"

/-- A fixed buffer that is null or empty. -/
def emptyBuffer : AllocError := invalidInput "fixed allocator needs a non-empty buffer"

/-- A block that the allocator never handed out, or has taken back. -/
def notOwned : AllocError := invalidInput "resize of a pointer not owned by this allocator"

/-- A length so large that its pages cannot be counted. -/
def corruptLength : AllocError := invalidInput "corrupt length"

end AllocError
end AllocChain
