import AllocChain.Word.Basic

/-!
A slice names a stretch of memory by its address and its length. It owns nothing: whoever holds
it may hold a stale one, or one that nobody handed out.
-/

namespace AllocChain

/-- An address and a length. -/
structure Slice where
  addr : Nat
  len : Nat
  deriving DecidableEq, Repr

namespace Slice

/-- The slice at address zero without bytes. -/
def null : Slice := ⟨0, 0⟩

/-- Whether the address is zero, whatever the length. -/
def isNull (s : Slice) : Bool := s.addr == 0

/-- The address after the last byte; a slice that runs past the last address faults. -/
def stop (s : Slice) : Except Fault Nat := Word.add s.addr s.len

/-- Whether `addr` lies in the slice. The end is only computed if `addr` is not below the start. -/
def contains (s : Slice) (addr : Nat) : Except Fault Bool :=
  if addr < s.addr then .ok false else (addr < ·) <$> s.stop

/-- How many bytes can be seen through the slice: none through a null one. -/
def byteCount (s : Slice) : Nat := if s.isNull then 0 else s.len

/-- How many bytes are copied from one slice to another: as many as both have, and none from or to
a null one. -/
def common (source target : Slice) : Nat :=
  if source.isNull || target.isNull then 0 else min source.len target.len

/-- Whether the bytes that are read when `source` is copied to `target` are none of those that are
written. -/
def CopiesApart (source target : Slice) : Prop :=
  source.addr + source.common target ≤ target.addr ∨
    target.addr + source.common target ≤ source.addr ∨ source.common target = 0

instance (source target : Slice) : Decidable (source.CopiesApart target) :=
  inferInstanceAs (Decidable (_ ∨ _ ∨ _))

/-- A copy between ranges that overlap faults. -/
def checkCopy (source target : Slice) : Except Fault Unit :=
  Fault.demand (source.CopiesApart target) .copyOverlap

theorem common_le (source target : Slice) :
    source.common target ≤ source.len ∧ source.common target ≤ target.len := by
  unfold common
  split <;> omega

theorem common_eq {source target : Slice} (hs : source.addr ≠ 0) (ht : target.addr ≠ 0) :
    source.common target = min source.len target.len := by
  simp [common, isNull, hs, ht]

theorem checkCopy_ok {source target : Slice} (h : source.CopiesApart target) :
    source.checkCopy target = .ok () := Fault.demand_of h _

theorem stop_of_lt {s : Slice} (h : s.addr + s.len < wordLimit) :
    s.stop = .ok (s.addr + s.len) := Word.add_of_lt h

theorem contains_of_lt {s : Slice} (h : s.addr + s.len < wordLimit) (addr : Nat) :
    s.contains addr = .ok (decide (s.addr ≤ addr ∧ addr < s.addr + s.len)) := by
  unfold contains
  split
  · rename_i hlt
    simp; omega
  · rename_i hge
    simp [stop_of_lt h, Functor.map, Except.map, Nat.le_of_not_lt hge]

end Slice
end AllocChain
