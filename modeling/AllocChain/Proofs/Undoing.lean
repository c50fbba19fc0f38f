import AllocChain.Proofs.Counting

/-!
Blocks that are given back right away. An allocator that `Undoes` its requests is afterwards as it
was before, and answers the same request in the same way again; so asking for a block and giving it
back can be repeated, and the block is the same every time (`Undoes.cycles`). Counting allocators
are the exception: what they have handed out and taken back stays counted, and once such a number
is no word any more they break off. `Undoes` says how far they have counted on.
-/

namespace AllocChain

open Memory

variable {β γ : Type}

/-- Asks for a block and gives it back. -/
def Allocator.cycle (A : Allocator γ) (size align : Nat) : Act γ Answer := do
  match ← A.alloc size align with
  | .error e => return .error e
  | .ok block =>
    A.free block
    return .ok block

/-- Does so `n` times. -/
def Allocator.cycles (A : Allocator γ) (size align : Nat) : Nat → Act γ (List Answer)
  | 0 => return []
  | n + 1 => do
    let answer ← A.cycle size align
    return answer :: (← A.cycles size align n)

/-- A block that is given back leaves no trace, whatever was written into it: `restored n` relates
bookkeeping to what is left of it after `n` requests that were undone. From there a request is
answered as it was before, unless one of the `counters` has reached the end. The bookkeeping has to
be `stocked`. -/
structure Undoes (B : Allocator β) (holds : List Slice → β × Machine → Prop) (stocked : β → Prop)
    (restored : Nat → β → β → Prop) (counters : β → List Counters) : Prop where
  refl {n b} : restored n b b
  trans {n k b b' b''} : restored n b b' → restored k b' b'' → restored (n + k) b b''
  stays {n b b'} : stocked b → restored n b b' → stocked b'
  undo {out s size align block t m} : holds out s → stocked s.1 →
    B.alloc size align s = .ok (.ok block, t) → WrittenIn [block] t.2.memory m.memory →
    ∃ u, B.free block (t.1, m) = .ok ((), u) ∧ restored 1 s.1 u.1
  again {n s s' size align block t} : B.alloc size align s = .ok (.ok block, t) →
    restored n s.1 s'.1 → (∀ c ∈ counters s.1, c.allocs + n + 1 < wordLimit) →
    ∃ t', B.alloc size align s' = .ok (.ok block, t')

namespace Undoes

variable {B : Allocator β} {holds holds' : List Slice → β × Machine → Prop} {stocked : β → Prop}
  {restored : Nat → β → β → Prop} {counters : β → List Counters} {out : List Slice}
  {s s' t : β × Machine} {size align : Nat} {block : Slice}

/-- Where more is held, the requests of one client are undone, too. -/
theorem mono (h : Undoes B holds stocked restored counters)
    (hholds : ∀ {out s}, holds' out s → ∃ all, holds all s) :
    Undoes B holds' stocked restored counters :=
  { h with
    undo := fun hs hstocked ha hw => by
      obtain ⟨all, hall⟩ := hholds hs
      exact h.undo hall hstocked ha hw }

/-- Every cycle gives the same block. The induction carries along what is left of the bookkeeping
after the cycles that came before. -/
theorem cycles (h : Undoes B holds stocked restored counters)
    (hB : Supply B Slice.Answers holds) (hstocked : stocked s.1)
    (ha : B.alloc size align s = .ok (.ok block, t)) {n k : Nat} (hs : holds out s')
    (hr : restored k s.1 s'.1) (hroom : ∀ c ∈ counters s.1, c.allocs + k + n < wordLimit) :
    ∃ u, B.cycles size align n s' = .ok (List.replicate n (.ok block), u) ∧
      restored (k + n) s.1 u.1 := by
  induction n generalizing k s' with
  | zero => exact ⟨s', rfl, hr⟩
  | succ n ih =>
    obtain ⟨t', ha'⟩ := h.again ha hr fun c hc => by
      have := hroom c hc
      omega
    obtain ⟨u, hf, hback⟩ := h.undo hs (h.stays hstocked hr) ha' (.refl _ _)
    have hcycle : B.cycle size align s' = .ok (.ok block, u) :=
      Act.bind_ok.2 ⟨_, _, ha', Act.bind_ok.2 ⟨_, _, hf, rfl⟩⟩
    have hu : holds out u := hB.free (hB.alloc hs ha').2 hf
    obtain ⟨v, hrest, hend⟩ := ih hu (h.trans hr hback) fun c hc => by
      have := hroom c hc
      omega
    refine ⟨v, Act.bind_ok.2 ⟨_, _, hcycle, Act.bind_ok.2 ⟨_, _, hrest, rfl⟩⟩, ?_⟩
    rwa [Nat.add_assoc, Nat.add_comm 1] at hend

/-- A tier that asked below before gets the same answer there. -/
theorem again_below (h : Undoes B holds stocked restored counters) {s s' : (γ × β) × Machine}
    (hcall : B.alloc size align (s.1.2, s.2) = .ok (.ok block, t)) {n : Nat}
    (hr : restored n s.1.2 s'.1.2) (hroom : ∀ c ∈ counters s.1.2, c.allocs + n + 1 < wordLimit) :
    ∃ t', B.alloc size align (s'.1.2, s'.2) = .ok (.ok block, t') :=
  h.again hcall hr hroom

end Undoes

/-! ### Counting -/

namespace Counters

variable {B : Allocator β} {holds : List Slice → β × Machine → Prop} {stocked : β → Prop}
  {restored : Nat → β → β → Prop} {counters : β → List Counters} {out : List Slice}
  {s s' t : (Counters × β) × Machine} {size align n : Nat} {block : Slice} {c : Counters}

/-- The counters after `k` requests that were undone. -/
def advance (c : Counters) (k : Nat) : Counters :=
  { c with allocs := c.allocs + k, frees := c.frees + k }

theorem alloc_met {u : β × Machine}
    (hcall : B.alloc size align (s.1.2, s.2) = .ok (.ok block, u))
    (hc : s.1.1.recordAlloc block = .ok c) :
    alloc B size align s = .ok (.ok block, ((c, u.1), u.2)) := by
  obtain ⟨⟨c₀, b⟩, m⟩ := s
  simp only at hcall hc
  simp [alloc, hcall, hc, Except.bind, Except.map]

theorem free_met {u : β × Machine} (hn : block.isNull = false)
    (hcall : B.free block (s.1.2, s.2) = .ok ((), u)) (hc : s.1.1.recordFree block = .ok c) :
    free B block s = .ok ((), ((c, u.1), u.2)) := by
  obtain ⟨⟨c₀, b⟩, m⟩ := s
  simp only at hcall hc
  simp [free, hn, hcall, hc, Except.bind, Except.map]

/-- Giving a block back takes back what its request has counted, but for the numbers of requests and
frees. -/
theorem undo (hB : Service B holds) (h : Undoes B holds stocked restored counters)
    (hk : Kept holds out s) (hstocked : stocked s.1.2)
    (ha : alloc B size align s = .ok (.ok block, t)) {m : Machine}
    (hw : WrittenIn [block] t.2.memory m.memory) :
    ∃ u, free B block (t.1, m) = .ok ((), u) ∧ u.1.1 = s.1.1.advance 1 ∧
      restored 1 s.1.2 u.1.2 := by
  obtain ⟨u, ⟨_, hbad, _⟩ | ⟨_, c, heq, hcall, hc, rfl⟩⟩ := alloc_ok ha
  · cases hbad
  cases heq
  have hn : block.isNull = false :=
    Slice.isNull_eq_false.2 (hB.supply.alloc hk.backed.1 hcall).1.2
  obtain ⟨v, hback, hrest⟩ := h.undo hk.backed.1 hstocked hcall hw
  obtain ⟨⟨hallocs, _⟩, rfl⟩ := recordAlloc_ok.1 hc
  have hfrees : s.1.1.frees + 1 < wordLimit := by
    have := hk.balanced.allocs
    omega
  refine ⟨_, free_met hn hback (recordFree_ok.2 ⟨hfrees, rfl⟩), ?_, hrest⟩
  simp [advance]

/-- Counters that count only words answer a request again. -/
theorem again (h : Undoes B holds stocked restored counters)
    (ha : alloc B size align s = .ok (.ok block, t)) (hr : restored n s.1.2 s'.1.2) {k : Nat}
    (hk : k ≤ n) (hc : s'.1.1 = s.1.1.advance k)
    (hroom : ∀ c ∈ s.1.1 :: counters s.1.2, c.allocs + n + 1 < wordLimit) :
    ∃ t', alloc B size align s' = .ok (.ok block, t') := by
  obtain ⟨hown, hbelow⟩ := List.forall_mem_cons.1 hroom
  obtain ⟨u, ⟨_, hbad, _⟩ | ⟨_, c, heq, hcall, hcount, rfl⟩⟩ := alloc_ok ha
  · cases hbad
  cases heq
  obtain ⟨⟨_, hlive, hbytes⟩, rfl⟩ := recordAlloc_ok.1 hcount
  obtain ⟨u', hcall'⟩ := h.again_below hcall hr hbelow
  refine ⟨_, alloc_met hcall' (recordAlloc_ok.2 ⟨?_, rfl⟩)⟩
  rw [hc]
  refine ⟨?_, hlive, hbytes⟩
  simp only [advance]
  omega

end Counters
end AllocChain
