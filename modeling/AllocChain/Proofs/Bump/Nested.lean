import AllocChain.Proofs.Run

/-!
Clients that give blocks back in the reverse order. From a state in which it holds some blocks, a
client asks for more, and only the newest of these that it still has may be resized or freed; a
resize must not move it. `Nested` keeps the stack of the blocks that it still has, and the first
request that was met. What is played on such a stack is nested (`Nested.play`).
-/

namespace AllocChain

variable {γ : Type}

/-- A request and the block that met it. -/
structure Grant where
  size : Nat
  align : Nat
  block : Slice
  deriving DecidableEq, Repr

/-- The states that a client can reach from `start` that takes back its newest block first. It has
the blocks of the stack beside those that it held before, and may write into all of them. -/
inductive Nested (A : Allocator γ) (held : List Slice) (start : γ × Machine) :
    Option Grant → List Slice → γ × Machine → Prop
  | start : Nested A held start none [] start
  | alloc {first stack s size align block t} : Nested A held start first stack s →
      A.alloc size align s = .ok (.ok block, t) →
      Nested A held start (first.or (some ⟨size, align, block⟩)) (block :: stack) t
  | alloc_refused {first stack s size align e t} : Nested A held start first stack s →
      A.alloc size align s = .ok (.error e, t) → Nested A held start first stack t
  | resize {first top stack s size align block t} : Nested A held start first (top :: stack) s →
      A.resize top size align s = .ok (.ok block, t) → block.addr = top.addr →
      Nested A held start first (block :: stack) t
  | resize_refused {first top stack s size align e t} :
      Nested A held start first (top :: stack) s →
      A.resize top size align s = .ok (.error e, t) →
      Nested A held start first (top :: stack) t
  | free {first top stack s t} : Nested A held start first (top :: stack) s →
      A.free top s = .ok ((), t) → Nested A held start first stack t
  | write {first stack s addr byte} : Nested A held start first stack s →
      (∃ block ∈ stack ++ held, block.Has addr) →
      Nested A held start first stack (s.1, s.2.mapMemory (·.write addr 1 fun _ => byte))

/-- Does one deed if it keeps to the stack. -/
def Allocator.descend (A : Allocator γ) (held : List Slice) (first : Option Grant)
    (stack : List Slice) (s : γ × Machine) :
    Deed → Option (Option Grant × List Slice × γ × Machine)
  | .alloc size align =>
    match A.alloc size align s with
    | .ok (.ok block, t) => some (first.or (some ⟨size, align, block⟩), block :: stack, t)
    | .ok (.error _, t) => some (first, stack, t)
    | .error _ => none
  | .resize old size align =>
    match stack with
    | [] => none
    | top :: stack =>
      if old = top then
        match A.resize top size align s with
        | .ok (.ok block, t) =>
          if block.addr = top.addr then some (first, block :: stack, t) else none
        | .ok (.error _, t) => some (first, top :: stack, t)
        | .error _ => none
      else none
  | .free old =>
    match stack with
    | [] => none
    | top :: stack =>
      if old = top then
        match A.free top s with
        | .ok (_, t) => some (first, stack, t)
        | .error _ => none
      else none
  | .write addr byte =>
    if ∃ block ∈ stack ++ held, block.Has addr then
      some (first, stack, (s.1, s.2.mapMemory (·.write addr 1 fun _ => byte)))
    else none
  | .allocZeroed .. => none

/-- Does deeds one after the other, as long as they keep to the stack and end without a fault. -/
def Allocator.nest (A : Allocator γ) (held : List Slice) :
    List Deed → Option Grant → List Slice → γ × Machine →
      Option (Option Grant × List Slice × γ × Machine)
  | [], first, stack, s => some (first, stack, s)
  | d :: ds, first, stack, s =>
    (A.descend held first stack s d).bind fun r => A.nest held ds r.1 r.2.1 r.2.2

namespace Nested

variable {A : Allocator γ} {held : List Slice} {start s s' : γ × Machine}
  {first first' : Option Grant} {stack stack' : List Slice}

theorem descend (h : Nested A held start first stack s) {d : Deed}
    (hd : A.descend held first stack s d = some (first', stack', s')) :
    Nested A held start first' stack' s' := by
  cases d with
  | alloc size align =>
    simp only [Allocator.descend] at hd
    split at hd
    · rename_i block t ha
      cases hd
      exact h.alloc ha
    · rename_i e t ha
      cases hd
      exact h.alloc_refused ha
    · cases hd
  | allocZeroed size align => cases hd
  | resize old size align =>
    simp only [Allocator.descend] at hd
    split at hd
    · cases hd
    split at hd
    · split at hd
      · rename_i block t hr
        split at hd
        · rename_i hsame
          cases hd
          exact h.resize hr hsame
        · cases hd
      · rename_i e t hr
        cases hd
        exact h.resize_refused hr
      · cases hd
    · cases hd
  | free old =>
    simp only [Allocator.descend] at hd
    split at hd
    · cases hd
    split at hd
    · split at hd
      · rename_i t hf
        cases hd
        exact h.free hf
      · cases hd
    · cases hd
  | write addr byte =>
    simp only [Allocator.descend] at hd
    split at hd
    · rename_i hin
      cases hd
      exact h.write hin
    · cases hd

theorem play (h : Nested A held start first stack s) {ds : List Deed}
    (hp : A.nest held ds first stack s = some (first', stack', s')) :
    Nested A held start first' stack' s' := by
  induction ds generalizing first stack s with
  | nil =>
    cases hp
    exact h
  | cons d ds ih =>
    obtain ⟨⟨first₁, stack₁, s₁⟩, hd, hrest⟩ := Option.bind_eq_some_iff.1 hp
    exact ih (h.descend hd) hrest

end Nested
end AllocChain
