import AllocChain.Proofs.Chain.Course
import AllocChain.Proofs.Chain.Edge
import AllocChain.Proofs.ScriptedTwins

/-!
The allocators that chains stand on in two runs: fixed ones (`Fixed.footing`) and scripted heaps
that keep to the contract (`ScriptedHeap.footing`). Over the same region, or the same heap, they are
alike from the start, whatever the memories hold (`Chain.Foundation.footing`).
-/

namespace AllocChain

open Memory

/-- A fixed allocator is a footing on all terms. -/
theorem Fixed.footing (T : Terms) :
    Chain.Footing T Fixed.allocator [Fixed.reset] (Stacking.Holds Fixed.Kept)
      (Stacking.Holds Fixed.Kept) fun _ => Fixed.Twin T where
  toTwins := (Fixed.twins T).close
  sweep hx _ out s s' hp := by
    rw [List.mem_singleton.1 hx]
    refine (Fixed.reset_alike hp.related).imp fun _ t t' ht ht' hpost => ?_
    exact ⟨Fixed.reset_holds hp.left ht, Fixed.reset_holds hp.right ht', hpost⟩

theorem Fixed.paired_nil {T : Terms} {base capacity : Nat} {m m' : Machine}
    (hbound : base + capacity < wordLimit) (htop : T.may ∨ base + capacity ≤ addressLimit)
    (hmirror : T.mirror → m' = m) :
    Paired (Stacking.Holds Fixed.Kept) (Stacking.Holds Fixed.Kept) (Fixed.Twin T) []
      (⟨base, capacity, 0⟩, m) (⟨base, capacity, 0⟩, m') := by
  have hempty : ∀ m : Memory, (⟨base, capacity, 0⟩ : Region).Sound m [] :=
    fun m => Region.sound_empty hbound (Nat.zero_le _)
  refine ⟨Fixed.holds_nil hbound, Fixed.holds_nil hbound, rfl, ⟨[], .nil, hempty _, hempty _⟩,
    htop, fun hm => ?_⟩
  rw [hmirror hm]

/-- A scripted heap is a footing on all terms. -/
theorem ScriptedHeap.footing (T : Terms) :
    Chain.Footing T ScriptedHeap.allocator [] ScriptedHeap.Holds ScriptedHeap.Holds
      fun _ _ => ScriptedHeap.Twin T where
  toTwins := ScriptedHeap.twins T
  sweep hx := by cases hx

theorem ScriptedHeap.paired_nil {T : Terms} {heap : ScriptedHeap} {m m' : Machine}
    (hheap : heap.Honest) (hnext : heap.next ≤ heap.limit)
    (htop : T.may ∨ heap.base + heap.limit ≤ addressLimit) (hmirror : T.mirror → m' = m) :
    Paired ScriptedHeap.Holds ScriptedHeap.Holds (fun _ => ScriptedHeap.Twin T) [] (heap, m)
      (heap, m') := by
  refine ⟨.nil hheap hnext, .nil hheap hnext, rfl, htop, fun hm => ?_⟩
  rw [hmirror hm]

namespace Chain

/-- An allocator without blocks that chains may stand on, with its edges, none of whose addresses is
beyond `top`: a fixed one, or a scripted heap that keeps to the contract. -/
inductive Foundation : {β : Type} → Allocator β → List (Act β Unit) → Edges β → β → Nat → Prop
  | fixed {base capacity} : base + capacity < wordLimit →
      Foundation Fixed.allocator [Fixed.reset] Fixed.edges ⟨base, capacity, 0⟩ (base + capacity)
  | heap {heap : ScriptedHeap} : heap.Honest → heap.next ≤ heap.limit →
      Foundation ScriptedHeap.allocator [] .none heap (heap.base + heap.limit)

variable {β : Type} {B : Allocator β} {bottom : List (Act β Unit)} {E : Edges β} {b : β} {top : Nat}

/-- Two states of an allocator without blocks, over memories that may differ. -/
abbrev Fresh (T : Terms) (holds holds' : List Slice → β × Machine → Prop)
    (rel : Nat → List Slice → β × Machine → β × Machine → Prop) (b : β) (top : Nat) : Prop :=
  ∀ n m m', T.may ∨ top ≤ addressLimit → T.may ∨ n < wordLimit → (T.mirror → m' = m) →
    Paired holds holds' (rel n) [] (b, m) (b, m')

/-- Every foundation is a footing on all terms, alike from the start, and breaks off at its edges
only. -/
theorem Foundation.footing (h : Foundation B bottom E b top) (T : Terms) : ∃ holds rel,
    Footing T B bottom holds holds rel ∧ Fresh T holds holds rel b top ∧ B.BreaksAt E holds := by
  cases h with
  | fixed hbound =>
    exact ⟨_, _, Fixed.footing T, fun _ _ _ htop _ hm => Fixed.paired_nil hbound htop hm,
      Fixed.breaksAt⟩
  | heap hheap hnext =>
    exact ⟨_, _, ScriptedHeap.footing T,
      fun _ _ _ htop _ hm => ScriptedHeap.paired_nil hheap hnext htop hm, ScriptedHeap.breaksAt _⟩

end Chain
end AllocChain
