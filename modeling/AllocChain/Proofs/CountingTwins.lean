import Mathlib.Order.Interval.Finset.Nat
import AllocChain.Proofs.Counting
import AllocChain.Proofs.Twins

/-!
Two runs of a counting allocator. Blocks that lie apart below an address have no more bytes together
than there are below it (`sum_len_le`), and no more blocks are given back than were handed out; so
the counters stay words as long as the number of requests is one, and a counting allocator is its
own twin if the allocator behind it is (`Counters.twins`).
-/

namespace AllocChain

theorem exists_addresses {out : List Slice} (h : out.Pairwise Slice.Disjoint) :
    ∃ addrs : Finset Nat, addrs.card = (out.map (·.len)).sum ∧
      ∀ a, a ∈ addrs ↔ ∃ block ∈ out, block.Has a := by
  induction out with
  | nil => exact ⟨∅, rfl, by simp⟩
  | cons block out ih =>
    obtain ⟨hfirst, hrest⟩ := List.pairwise_cons.1 h
    obtain ⟨addrs, hcard, hmem⟩ := ih hrest
    have hhas : ∀ a, a ∈ Finset.Ico block.addr (block.addr + block.len) ↔ block.Has a :=
      fun a => Finset.mem_Ico
    have hapart : Disjoint (Finset.Ico block.addr (block.addr + block.len)) addrs := by
      refine Finset.disjoint_left.2 fun a ha ha' => ?_
      obtain ⟨other, ho, hother⟩ := (hmem a).1 ha'
      exact hfirst other ho a ((hhas a).1 ha) hother
    refine ⟨Finset.Ico block.addr (block.addr + block.len) ∪ addrs, ?_, fun a => ?_⟩
    · rw [Finset.card_union_of_disjoint hapart, Nat.card_Ico, hcard, List.map_cons, List.sum_cons,
        Nat.add_sub_cancel_left]
    · rw [Finset.mem_union, hhas, hmem, List.exists_mem_cons_iff]

/-- Blocks that lie apart below an address are no longer together than that. -/
theorem sum_len_le {out : List Slice} {top : Nat} (h : out.Pairwise Slice.Disjoint)
    (htop : ∀ block ∈ out, block.addr + block.len ≤ top) : (out.map (·.len)).sum ≤ top := by
  obtain ⟨addrs, hcard, hmem⟩ := exists_addresses h
  have hbelow : addrs ⊆ Finset.range top := by
    intro a ha
    obtain ⟨block, hb, hhas⟩ := (hmem a).1 ha
    exact Finset.mem_range.2 (Nat.lt_of_lt_of_le hhas.2 (htop block hb))
  rw [← hcard]
  exact (Finset.card_le_card hbelow).trans_eq (Finset.card_range top)

/-- The bytes that are out are fewer than the words. -/
theorem Supply.sum_len_lt {β : Type} {B : Allocator β} {fit : Nat → Nat → Slice → Prop}
    {holds : List Slice → β × Machine → Prop} {out : List Slice} {u : β × Machine}
    (hB : Supply B fit holds) (hh : holds out u) : (out.map (·.len)).sum < wordLimit := by
  have htop : ∀ block ∈ out, block.addr + block.len ≤ wordLimit - 1 := fun block hb =>
    Nat.le_sub_one_of_lt (hB.bounded hh block hb)
  exact Nat.lt_of_le_of_lt (sum_len_le (hB.apart hh) htop) (by decide)

namespace Counters

variable {β : Type} {B : Allocator β} {T : Terms}
  {holds holds' : List Slice → β × Machine → Prop}
  {rel : Nat → List Slice → β × Machine → β × Machine → Prop} {n : Nat} {out : List Slice}
  {s s' : (Counters × β) × Machine}

/-- The counters are the same, the blocks are held alike behind, and the requests that are sure can
still be counted. -/
structure Twin (T : Terms) (rel : Nat → List Slice → β × Machine → β × Machine → Prop) (n : Nat)
    (out : List Slice) (s s' : (Counters × β) × Machine) : Prop
    extends Twins.Atop (fun _ => out) rel n s s' where
  counted : T.may ∨ s.1.1.allocs + n < wordLimit

theorem paired (hp : Paired (Kept holds) (Kept holds') (Twin T rel n) out s s') :
    Paired (NonNull holds) (NonNull holds') (rel n) out (s.1.2, s.2) (s'.1.2, s'.2) :=
  ⟨hp.left.backed, hp.right.backed, hp.related.below⟩

/-- A call that is counted is answered alike if it is behind: if the bytes that are out then are
fewer than the words, the answer can be counted, and it counts as one request at most. -/
theorem counted_alike (hB : Twins T B holds holds' rel) {kept : List Slice} {valid : Prop}
    {x : Act β Answer} {count : Counters → Slice → Except Fault Counters}
    (hp : Paired (Kept holds) (Kept holds') (Twin T rel (n + 1)) kept s s')
    (hx : Act.Alike T.may (Answered T (Paired (NonNull holds) (NonNull holds') (rel n)) valid out
      kept) x x (s.1.2, s.2) (s'.1.2, s'.2))
    (hcount : ∀ block, s.1.1.allocs + 1 < wordLimit →
      ((block :: out).map (·.len)).sum < wordLimit → ∃ c, count s.1.1 block = .ok c)
    (hallocs : ∀ block c, count s.1.1 block = .ok c → c.allocs ≤ s.1.1.allocs + 1) :
    Act.Alike T.may (Answered T (Twin T rel n) valid out kept) (counted x count) (counted x count)
      s s' := by
  have hcounted := hp.related.counted
  simp only [counted]
  refine .below_bind hx ?_
  intro answer u u' _ _ hpost
  cases answer with
  | error e =>
    have hfewer : T.may ∨ s.1.1.allocs + n < wordLimit := hcounted.imp_right fun h => by omega
    exact .pure ⟨⟨⟨hp.related.own, hpost.1.related⟩, hfewer⟩, hpost.2⟩
  | ok block =>
    refine .own_bind hp.related.own (.lift_bind ?_ fun c hc =>
      .setOwn_bind (.pure ⟨⟨rfl, hpost.related⟩, hcounted.imp_right fun h => ?_⟩))
    · exact hcounted.imp_right fun h =>
        hcount block (by omega) (hB.nonNull.left.supply.sum_len_lt hpost.left)
    · have hle := hallocs block c hc
      simp only
      omega

/-- A counting allocator is its own twin if the allocator behind it is. -/
theorem twins (hB : Twins T B holds holds' rel) :
    Twins T (allocator B) (Kept holds) (Kept holds') (Twin T rel) where
  left := (service hB.service).keeper
  right := (service hB.service').keeper
  service := service hB.service
  service' := service hB.service'
  fewer h := ⟨h.toAtop.fewer hB.toKindred, h.counted.imp_right fun hcount => by omega⟩
  perm hp h := ⟨⟨h.own, hB.perm hp h.below⟩, h.counted⟩
  mirror hm h := h.toAtop.mirror hB.toKindred hm
  write hp hw hw' hmirror :=
    ⟨⟨hp.related.own, hB.nonNull.write (paired hp) hw hw' hmirror⟩, hp.related.counted⟩
  low hp := hB.nonNull.low (paired hp)
  alloc {n out s s' size align} hp hfair := by
    change Act.Alike T.may _ (alloc B size align) (alloc B size align) s s'
    rw [alloc_eq]
    refine counted_alike hB hp (hB.nonNull.alloc_paired (paired hp) hfair)
      (fun _ hcount hbytes => hp.left.balanced.recordAlloc_returns hcount hbytes) fun _ _ hc => ?_
    rw [(recordAlloc_ok.1 hc).2]
  resize {n out s s' old size align} hp hn hs hfair := by
    change Act.Alike T.may _ (resize B old size align) (resize B old size align) s s'
    rw [resize_eq]
    simp only [hn, Bool.false_eq_true, if_false, if_neg hs]
    refine counted_alike hB hp (hB.nonNull.resize_paired (paired hp) hn hs hfair)
      (fun _ _ hbytes => hp.left.balanced.recordResize_returns hbytes) fun _ _ hc => ?_
    rw [(recordResize_ok.1 hc).2]
    exact Nat.le_succ _
  free {n out s s' block} hp := by
    change Act.Alike T.may _ (free B block) (free B block) s s'
    have hnull : block.isNull = false :=
      Slice.isNull_eq_false.2 (hp.left.backed.2 block List.mem_cons_self)
    simp only [free, hnull, Bool.false_eq_true, if_false]
    refine .below_bind (hB.nonNull.free_paired (paired hp)) ?_
    intro _ u u' _ _ hpost
    refine .own_bind hp.related.own (.lift_bind ?_ fun c hc => .setOwn ⟨⟨rfl, ?_⟩, ?_⟩)
    · exact hp.related.counted.imp_right fun h =>
        hp.left.balanced.recordFree_returns (by omega)
    · exact hpost.related
    · obtain ⟨_, rfl⟩ := recordFree_ok.1 hc
      exact hp.related.counted
  free_null {n out s s' block} hp hn := by
    change Act.Alike T.may _ (free B block) (free B block) s s'
    simp only [free, hn, if_true]
    exact .pure hp.related

end Counters
end AllocChain
