import AllocChain.Proofs.Bump.Low
import AllocChain.Proofs.Bump.Slab

/-!
Two runs of a slab pool. A pool reads nothing from memory, so over an allocator that answers its
requests alike it is its own twin (`SlabPool.twins`).
-/

namespace AllocChain

open Memory

/-- A slab that lies low and is not null has room, or it has not. -/
theorem Slab.bump_returns {slab : Slab} (hne : slab.mem.addr ≠ 0)
    (hlow : slab.mem.addr + slab.mem.len ≤ addressLimit) (hwithin : slab.offset ≤ slab.mem.len)
    (size k : Nat) : ∃ found, slab.bump size (2 ^ k) = .ok found := by
  have hstart : slab.mem.addr + slab.offset < 2 ^ 63 := by
    simp only [addressLimit] at hlow
    omega
  have hpos : 0 < slab.mem.addr + slab.offset := Nat.add_pos_left (Nat.pos_of_ne_zero hne) _
  obtain ⟨found, hplace⟩ : ∃ found,
      place slab.mem.addr slab.mem.len slab.offset size (2 ^ k) = .ok found :=
    place_returns hpos hstart
  simp only [bump, hplace, bind, Except.bind]
  cases found <;> exact ⟨_, rfl⟩

namespace SlabPool

variable {β : Type} {B : Allocator β} {T : Terms}
  {holds holds' : List Slice → β × Machine → Prop}
  {rel : Nat → List Slice → β × Machine → β × Machine → Prop} {n : Nat} {out : List Slice}
  {s s' : (SlabPool × β) × Machine} {size k : Nat}

/-- The pools are the same, and their slabs are held alike. -/
abbrev Twin (rel : Nat → List Slice → β × Machine → β × Machine → Prop) (n : Nat)
    (_out : List Slice) (s s' : (SlabPool × β) × Machine) : Prop :=
  Twins.Atop (fun p => p.slabs.map (·.mem)) rel n s s'

theorem paired (hp : Paired (Kept holds) (Kept holds') (Twin rel n) out s s') :
    Paired (NonNull holds) (NonNull holds') (rel n) (s.1.1.slabs.map (·.mem)) (s.1.2, s.2)
      (s'.1.2, s'.2) :=
  hp.related.paired hp.left.backed hp.right.backed

theorem bumpNewest_returns {p : SlabPool} (hne : ∀ mem ∈ p.slabs.map (·.mem), mem.addr ≠ 0)
    (hlow : ∀ mem ∈ p.slabs.map (·.mem), mem.addr + mem.len ≤ addressLimit)
    (hwithin : ∀ slab ∈ p.slabs, slab.offset ≤ slab.mem.len) (size k : Nat) :
    ∃ found, p.bumpNewest size (2 ^ k) = .ok found := by
  cases hp : p.slabs with
  | nil =>
    simp only [bumpNewest, hp]
    exact ⟨_, rfl⟩
  | cons slab older =>
    rw [hp] at hne hlow hwithin
    obtain ⟨found, hbump⟩ := Slab.bump_returns (hne slab.mem List.mem_cons_self)
      (hlow slab.mem List.mem_cons_self) (hwithin slab List.mem_cons_self) size k
    simp only [bumpNewest, hp, hbump, bind, Except.bind]
    cases found <;> exact ⟨_, rfl⟩

theorem serve_alike (hB : Kindred T B holds holds' rel)
    (hp : Paired (Kept holds) (Kept holds') (Twin rel (n + 1)) out s s') (hs : 0 < size) :
    Act.Alike T.may (Answered T (Twin rel n) (ValidRequest size (2 ^ k)) out out)
      (serve B size (2 ^ k)) (serve B size (2 ^ k)) s s' := by
  have hN := hB.nonNull
  have hbelow := paired hp
  simp only [serve]
  refine .own_bind hp.related.own (.lift_bind ?_ fun found hbump => ?_)
  · refine (hN.low hbelow).imp_right fun hlow => ?_
    exact bumpNewest_returns hp.left.backed.2 hlow hp.left.filled.within size k
  rcases found with _ | ⟨block, p⟩
  · have hvalid : ValidRequest (max size s.1.1.slabSize) (max (2 ^ k) leastSlabAlign) :=
      validRequest_max (Nat.lt_of_lt_of_le hs (Nat.le_max_left _ _)) k 3
    refine .below_bind (hN.alloc_paired hbelow (T.fair_of_valid hvalid)) ?_
    intro answer u u' _ _ hpost
    cases answer with
    | error e => exact .pure ⟨⟨hp.related.own, hpost.1.related⟩, fun _ => hpost.2 hvalid⟩
    | ok storage =>
      have hacquired := hN.report hpost [.slabAcquired (max size s.1.1.slabSize)
        (max (2 ^ k) leastSlabAlign) storage.addr]
      refine .emit_bind (.lift_bind ?_ fun placed hplaced => ?_)
      · refine (hN.low hpost).imp_right fun hlow => ?_
        exact Slab.bump_returns (hpost.left.2 storage List.mem_cons_self)
          (hlow storage List.mem_cons_self) (Nat.zero_le _) size k
      rcases placed with _ | ⟨block, slab⟩
      · refine .below_bind (hN.free_paired hacquired) ?_
        intro _ v v' _ _ hrest
        exact .pure ⟨⟨hp.related.own, hrest.related⟩, fun _ => T.exhausted _ _⟩
      · refine .setOwn_bind (.emit_bind (.pure ⟨rfl, ?_⟩))
        rw [List.map_cons, (Slab.bump_ok hplaced).1]
        exact (hN.report hacquired _).related
  · obtain ⟨slab, older, slab', hslabs, hplaced, rfl⟩ := bumpNewest_ok hbump
    refine .setOwn_bind (.emit_bind (.pure ⟨rfl, ?_⟩))
    have hsame : (slab' :: older).map (·.mem) = s.1.1.slabs.map (·.mem) := by
      rw [hslabs, List.map_cons, List.map_cons, (Slab.bump_ok hplaced).1]
    rw [hsame]
    exact (hN.report (hbelow.mono hN.fewer) _).related

theorem kindred (hB : Kindred T B holds holds' rel) :
    Kindred T.open (allocator B) (Kept holds) (Kept holds') (Twin rel) where
  left := (lending hB.left).contract.keeper
  right := (lending hB.right).contract.keeper
  fewer h := h.fewer hB
  perm _ h := h
  mirror hm h := h.mirror hB hm
  write {n out s s' w w'} hp hw hw' hmirror := by
    have hin : ∀ block ∈ out, ∃ mem ∈ s.1.1.slabs.map (·.mem), block.Inside mem :=
      fun block hb => hp.left.filled.inside hb
    exact ⟨hp.related.own, hB.nonNull.write (paired hp) (hw.inside hin) (hw'.inside hin) hmirror⟩
  low {n out s s'} hp := by
    refine (hB.nonNull.low (paired hp)).imp_right fun hlow block hb => ?_
    obtain ⟨mem, hmem, hin⟩ := hp.left.filled.inside hb
    exact Nat.le_trans hin.2 (hlow mem hmem)
  alloc hp _ := .allocBy (hp.related.fewer hB) fun k hs => by
    have hserved := serve_alike (k := k) hB hp hs
    exact hserved
  free {n out s s' block} hp := .emit ⟨hp.related.own, (hB.nonNull.report (paired hp) _).related⟩
  free_null {n out s s' block} hp _ :=
    .emit ⟨hp.related.own, (hB.nonNull.report (paired hp) _).related⟩

/-- A slab pool is its own twin if the allocator behind it answers its requests alike. -/
theorem twins (hB : Kindred T B holds holds' rel) :
    Twins T.open (allocator B) (Kept holds) (Kept holds') (Twin rel) := by
  have hresize : (allocator B).resize =
      resizeBy (allocator B).alloc (allocator B).free (adjust B) := rfl
  refine (kindred hB).twins ((lending hB.left).contract.service (orderly B))
    ((lending hB.right).contract.service (orderly B)) hresize
    fun {n out s s' old size k} hp hn hs => ?_
  have hmoved := (kindred hB).relocate hp (validRequest_two_pow hs k)
  simp only [adjust]
  by_cases hstay : size ≤ old.len ∧ old.addr % 2 ^ k = 0
  · rw [if_pos hstay]
    exact .pure (hp.related.fewer hB)
  · rw [if_neg hstay]
    exact hmoved

theorem destroy_alike (hB : Kindred T B holds holds' rel)
    (hp : Paired (Kept holds) (Kept holds') (Twin rel n) out s s') :
    Act.Alike T.may (fun _ => Twin rel n []) (destroy B) (destroy B) s s' := by
  have holdest : (s.1.1.slabs.map (·.mem)).Perm (s.1.1.slabs.reverse.map (·.mem) ++ []) := by
    rw [List.append_nil]
    exact ((List.reverse_perm _).map _).symm
  have hback := hB.nonNull.paired_perm holdest (paired hp)
  simp only [destroy]
  refine .own_bind hp.related.own (.setOwn_bind ?_)
  by_cases hany : s.1.1.slabs ≠ []
  · rw [if_pos hany]
    refine .emit_bind (.below ((hB.nonNull.freeAll (hB.nonNull.report hback _)).imp ?_))
    exact fun _ _ _ _ _ hrest => ⟨rfl, hrest.related⟩
  · rw [if_neg hany]
    refine .below ((hB.nonNull.freeAll hback).imp ?_)
    exact fun _ _ _ _ _ hrest => ⟨rfl, hrest.related⟩

end SlabPool
end AllocChain
