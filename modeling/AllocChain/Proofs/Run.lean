import AllocChain.Proofs.Contract
import AllocChain.Proofs.Inversion

/-!
Runs of a client: deeds one after the other, each of which ends without a fault, and now and then a
sweep that takes back all blocks at once. Beside the state a run keeps the leases: one for each
block that was handed out and not taken back, with the request that it answers, the state in which
it was made, and what is known of its bytes.

A rule says which deeds a client may do, given its leases. `Disciplined` clients resize and free
only what they hold and write only into it, `Confined` ones may resize and free whatever they like,
and `Unruly` ones may do anything.
-/

namespace AllocChain

/-- Something that a client does. -/
inductive Deed where
  | alloc (size align : Nat)
  | allocZeroed (size align : Nat)
  | resize (block : Slice) (size align : Nat)
  | free (block : Slice)
  /-- Stores a byte. -/
  | write (addr : Nat) (byte : UInt8)
  deriving DecidableEq, Repr

variable {γ : Type}

/-- Does a deed; one that is no request is answered by the null slice. -/
def Allocator.perform (A : Allocator γ) : Deed → Act γ Answer
  | .alloc size align => A.alloc size align
  | .allocZeroed size align => A.allocZeroed size align
  | .resize block size align => A.resize block size align
  | .free block => do
    A.free block
    return .ok .null
  | .write addr byte => do
    Act.changeMemory (·.write addr 1 fun _ => byte)
    return .ok .null

/-- A block that a client holds: the request that it answers, the state right before the block was
made, and the bytes that the client knows, counted from its start. -/
structure Lease (γ : Type) where
  block : Slice
  size : Nat
  align : Nat
  born : γ × Machine
  known : Nat → Option UInt8

namespace Lease

/-- A new block; nothing is known of its bytes, or they all have one value. -/
def fresh (s : γ × Machine) (block : Slice) (size align : Nat) (value : Option UInt8) : Lease γ :=
  ⟨block, size, align, s, fun _ => value⟩

/-- What becomes of a lease when its block is resized: the bytes that both have room for stay known,
and a block that stays where it is was made when it was made. -/
def renew (lease : Lease γ) (s : γ × Machine) (block : Slice) (size align : Nat) : Lease γ where
  block := block
  size := size
  align := align
  born := if block.addr = lease.block.addr then lease.born else s
  known i := if i < lease.block.len ∧ i < block.len then lease.known i else none

/-- The lease after a byte was stored at `addr`. -/
def store (lease : Lease γ) (addr : Nat) (byte : UInt8) : Lease γ :=
  { lease with known i := if lease.block.addr + i = addr then some byte else lease.known i }

/-- The leases of blocks that start elsewhere. -/
def without (live : List (Lease γ)) (addr : Nat) : List (Lease γ) :=
  live.filter fun lease => lease.block.addr != addr

/-- The leases of a client after a deed that was done in state `s`. A block is taken back by its
address, whatever length is named, and null takes nothing back. -/
def after (live : List (Lease γ)) (s : γ × Machine) : Deed → Answer → List (Lease γ)
  | _, .error _ => live
  | .alloc size align, .ok block => fresh s block size align none :: live
  | .allocZeroed size align, .ok block => fresh s block size align (some 0) :: live
  | .resize old size align, .ok block =>
    if old.isNull then fresh s block size align none :: live
    else if size = 0 then without live old.addr
    else match live.find? fun lease => lease.block.addr == old.addr with
      | none => fresh s block size align none :: live
      | some lease => lease.renew s block size align :: without live old.addr
  | .free old, .ok _ => if old.isNull then live else without live old.addr
  | .write addr byte, .ok _ => live.map (·.store addr byte)

end Lease

/-- The states and leases that a client can reach from `start` when it keeps to the rule; `sweeps`
are the operations that take back all blocks. -/
inductive Run (A : Allocator γ) (sweeps : List (Act γ Unit))
    (rule : List (Lease γ) → Deed → Prop) (start : γ × Machine) :
    List (Lease γ) → γ × Machine → Prop
  | start : Run A sweeps rule start [] start
  | deed {live s d r t} : Run A sweeps rule start live s → rule live d →
      A.perform d s = .ok (r, t) → Run A sweeps rule start (Lease.after live s d r) t
  | sweep {live s x t} : Run A sweeps rule start live s → x ∈ sweeps → x s = .ok ((), t) →
      Run A sweeps rule start [] t

/-- The slice is null or the block of a lease. -/
def Held (live : List (Lease γ)) (block : Slice) : Prop :=
  block.isNull = true ∨ ∃ lease ∈ live, lease.block = block

/-- The address lies in the block of a lease. -/
def Writable (live : List (Lease γ)) (addr : Nat) : Prop :=
  ∃ lease ∈ live, lease.block.Has addr

/-- Resizes and frees only what is held, and writes only into it. -/
def Disciplined (live : List (Lease γ)) : Deed → Prop
  | .resize block _ _ | .free block => Held live block
  | .write addr _ => Writable live addr
  | _ => True

/-- Resizes and frees anything, but writes only into what is held. -/
def Confined (live : List (Lease γ)) : Deed → Prop
  | .write addr _ => Writable live addr
  | _ => True

/-- Does anything. -/
def Unruly (_live : List (Lease γ)) (_deed : Deed) : Prop := True

instance (live : List (Lease γ)) (block : Slice) : Decidable (Held live block) :=
  inferInstanceAs (Decidable (_ ∨ _))

instance (live : List (Lease γ)) (addr : Nat) : Decidable (Writable live addr) :=
  inferInstanceAs (Decidable (∃ lease ∈ live, lease.block.Has addr))

instance (live : List (Lease γ)) : (d : Deed) → Decidable (Disciplined live d)
  | .alloc .. | .allocZeroed .. => isTrue trivial
  | .resize block _ _ | .free block => inferInstanceAs (Decidable (Held live block))
  | .write addr _ => inferInstanceAs (Decidable (Writable live addr))

instance (live : List (Lease γ)) : (d : Deed) → Decidable (Confined live d)
  | .alloc .. | .allocZeroed .. | .resize .. | .free _ => isTrue trivial
  | .write addr _ => inferInstanceAs (Decidable (Writable live addr))

instance (live : List (Lease γ)) (d : Deed) : Decidable (Unruly live d) := isTrue trivial

/-- Does deeds one after the other, as long as they keep to the rule and end without a fault. -/
def Allocator.play (A : Allocator γ) (rule : List (Lease γ) → Deed → Prop)
    [∀ live d, Decidable (rule live d)] :
    List Deed → List (Lease γ) → γ × Machine → Option (List (Lease γ) × γ × Machine)
  | [], live, s => some (live, s)
  | d :: ds, live, s =>
    if rule live d then
      match A.perform d s with
      | .ok (r, t) => A.play rule ds (Lease.after live s d r) t
      | .error _ => none
    else none

theorem Run.play {A : Allocator γ} {sweeps : List (Act γ Unit)}
    {rule : List (Lease γ) → Deed → Prop} [∀ live d, Decidable (rule live d)]
    {start s s' : γ × Machine} {live live' : List (Lease γ)} {ds : List Deed}
    (h : Run A sweeps rule start live s) (hp : A.play rule ds live s = some (live', s')) :
    Run A sweeps rule start live' s' := by
  induction ds generalizing live s with
  | nil =>
    cases hp
    exact h
  | cons d ds ih =>
    rw [Allocator.play] at hp
    by_cases hrule : rule live d
    · rw [if_pos hrule] at hp
      cases hd : A.perform d s with
      | error e => simp [hd] at hp
      | ok r =>
        simp only [hd] at hp
        exact ih (h.deed hrule hd) hp
    · rw [if_neg hrule] at hp
      cases hp

end AllocChain
