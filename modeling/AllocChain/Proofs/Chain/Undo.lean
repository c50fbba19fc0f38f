import AllocChain.Proofs.Bump.Undo
import AllocChain.Proofs.Chain.Run
import AllocChain.Proofs.Classes.Undo

/-!
Requests of a whole chain that are undone. All tiers but slabs undo what they did for a block if the
allocator below does (`Tier.undoes`), arenas as soon as they have a chunk; so chains of them undo it
down to the bottom (`Chain.undoes`). Over a fixed allocator every level is restored, and the same
request can be repeated without end (`restored_of_free`).
-/

namespace AllocChain

open Memory

namespace Tier

variable {β : Type} {n k : Nat}

/-- The tiers that hand out a place again as soon as it was given back. Slabs never do. -/
def Reuses : Tier → Prop
  | slabs _ => False
  | _ => True

instance : DecidablePred Reuses := fun tier =>
  match tier with
  | slabs _ => inferInstanceAs (Decidable False)
  | fixed _ | arena _ | general _ | counting => inferInstanceAs (Decidable True)

/-- An arena keeps the chunk that it opened when it had none; it is stocked once it has one. -/
def Stocked : (tier : Tier) → tier.Book → Prop
  | arena _ => fun a => a.chunks ≠ []
  | _ => fun _ => True

instance : (tier : Tier) → (b : tier.Book) → Decidable (tier.Stocked b)
  | arena _, a => inferInstanceAs (Decidable (a.chunks ≠ []))
  | fixed _, _ | slabs _, _ | general _, _ | counting, _ => inferInstanceAs (Decidable True)

/-- What is left of a tier after `n` requests that were undone: all, but for the numbers of requests
and frees that a counting tier has seen. -/
def Restored (n : Nat) : (tier : Tier) → tier.Book → tier.Book → Prop
  | counting => fun c c' => ∃ k ≤ n, c' = c.advance k
  | _ => fun b b' => b' = b

/-- The counters of a tier. -/
def counters : (tier : Tier) → tier.Book → List Counters
  | counting => fun c => [c]
  | _ => fun _ => []

theorem Restored.refl {tier : Tier} {b : tier.Book} : tier.Restored n b b := by
  cases tier with
  | counting => exact ⟨0, Nat.zero_le n, rfl⟩
  | _ => rfl

theorem Restored.trans {tier : Tier} {b b' b'' : tier.Book} (h : tier.Restored n b b')
    (h' : tier.Restored k b' b'') : tier.Restored (n + k) b b'' := by
  cases tier with
  | counting =>
    obtain ⟨i, hi, rfl⟩ := h
    obtain ⟨j, hj, rfl⟩ := h'
    refine ⟨i + j, Nat.add_le_add hi hj, ?_⟩
    simp [Counters.advance, Nat.add_assoc]
  | _ => exact Eq.trans h' h

theorem Restored.stays {tier : Tier} {b b' : tier.Book} (hs : tier.Stocked b)
    (h : tier.Restored n b b') : tier.Stocked b' := by
  cases tier with
  | arena n =>
    cases h
    exact hs
  | _ => trivial

variable {B : Allocator β} {holds : List Slice → β × Machine → Prop} {stocked : β → Prop}
  {restored : Nat → β → β → Prop} {counters : β → List Counters}

/-- What a tier asked for below is undone with what it did itself. -/
theorem undoes (hB : Service B holds) (h : Undoes B holds stocked restored counters) {tier : Tier}
    (htier : tier.Reuses) :
    Undoes (tier.allocator B) (tier.Stands holds) (fun b => tier.Stocked b.1 ∧ stocked b.2)
      (fun n b b' => tier.Restored n b.1 b'.1 ∧ restored n b.2 b'.2)
      (fun b => tier.counters b.1 ++ counters b.2) where
  refl := ⟨.refl, h.refl⟩
  trans hr hr' := ⟨hr.1.trans hr'.1, h.trans hr.2 hr'.2⟩
  stays hs hr := ⟨hr.1.stays hs.1, h.stays hs.2 hr.2⟩
  undo := by
    intro out s size align block t m hstands hstocked ha hw
    cases tier with
    | fixed buffer =>
      obtain ⟨⟨_, m'⟩, hf, rfl⟩ := Fixed.seated_undo hstands ha hw
      exact ⟨(s.1, m'), hf, .refl, h.refl⟩
    | slabs n => exact htier.elim
    | arena n => exact Arena.undo hB h hstands.1 hstocked.1 hstocked.2 ha hw
    | general n => exact GeneralPurpose.undo hB h hstands.1 hstands.2 hstocked.2 ha hw
    | counting =>
      obtain ⟨u, hf, hown, hbelow⟩ := Counters.undo hB h hstands hstocked.2 ha hw
      exact ⟨u, hf, ⟨1, Nat.le_refl 1, hown⟩, hbelow⟩
  again := by
    intro n s s' size align block t ha hr hroom
    cases tier with
    | fixed buffer => exact Fixed.seated_again ha hr.1
    | slabs m => exact htier.elim
    | arena m => exact Arena.again h ha hr.1 hr.2 hroom
    | general m => exact GeneralPurpose.again h ha hr.1 hr.2 hroom
    | counting =>
      obtain ⟨⟨k, hk, hown⟩, hbelow⟩ := hr
      exact Counters.again h ha hbelow hk hown hroom

end Tier

namespace Chain

variable {β : Type} {B : Allocator β} {holds : List Slice → β × Machine → Prop}

/-- Every tier of the chain is stocked. -/
def Stocked : (tiers : List Tier) → Book β tiers → Prop
  | [], _ => True
  | tier :: tiers, b => tier.Stocked b.1 ∧ Stocked tiers b.2

instance decidableStocked : (tiers : List Tier) → (b : Book β tiers) → Decidable (Stocked tiers b)
  | [], _ => inferInstanceAs (Decidable True)
  | tier :: tiers, b =>
    have := decidableStocked tiers b.2
    inferInstanceAs (Decidable (tier.Stocked b.1 ∧ Stocked tiers b.2))

/-- What is left of a chain after `n` requests that were undone: every tier is restored, and the
bottom is the same. -/
def Restored (n : Nat) : (tiers : List Tier) → Book β tiers → Book β tiers → Prop
  | [], b, b' => b' = b
  | tier :: tiers, b, b' => tier.Restored n b.1 b'.1 ∧ Restored n tiers b.2 b'.2

/-- The counters of a chain. -/
def counters : (tiers : List Tier) → Book β tiers → List Counters
  | [], _ => []
  | tier :: tiers, b => tier.counters b.1 ++ counters tiers b.2

/-- A chain undoes what its bottom undoes. The tiers are taken from below, each over a chain that
serves the client there beside it. -/
theorem undoes (hB : Service B holds)
    (h : Undoes B holds (fun _ => True) (fun _ b b' => b' = b) fun _ => []) {tiers : List Tier}
    (htiers : ∀ tier ∈ tiers, tier.Reuses) (m₀ : Memory) (clients : Nat → List Slice) :
    Undoes (allocator B tiers) (Stands holds m₀ tiers clients) (Stocked tiers)
      (fun n => Restored n tiers) (counters tiers) := by
  induction tiers generalizing clients with
  | nil => exact h
  | cons tier tiers ih =>
    obtain ⟨htier, hrest⟩ := List.forall_mem_cons.1 htiers
    have hS := (service hB m₀ tiers fun k => clients (k + 1)).framed (clients 1) m₀
    exact Tier.undoes hS ((ih hrest _).mono fun hh => ⟨_, hh.1⟩) htier

end Chain

/-- Giving a block back right away, whatever was written into it, restores every level of a chain on
a fixed allocator, if there are no slabs among the tiers and each arena has a chunk. So the same
request gives the same block however often it is repeated, and the buffer is never used up. Only a
counting allocator breaks off, once the number of its requests is no word any more. -/
theorem restored_of_free {base capacity : Nat} {m : Machine} {tiers : List Tier}
    {clients : Nat → List Slice} {s t : Chain.Book Region tiers × Machine} {size align : Nat}
    {block : Slice} (hbound : base + capacity < wordLimit)
    (htiers : ∀ tier ∈ tiers, tier.Reuses)
    (hrun : Chain.Run Fixed.allocator [Fixed.reset] (⟨base, capacity, 0⟩, m) tiers clients s)
    (hstocked : Chain.Stocked tiers s.1)
    (ha : (Chain.allocator Fixed.allocator tiers).alloc size align s = .ok (.ok block, t)) :
    (∀ m' : Machine, WrittenIn [block] t.2.memory m'.memory →
      ∃ u, (Chain.allocator Fixed.allocator tiers).free block (t.1, m') = .ok ((), u) ∧
        Chain.Restored 1 tiers s.1 u.1) ∧
    ∀ n, (∃ u, (Chain.allocator Fixed.allocator tiers).cycles size align n s =
          .ok (List.replicate n (.ok block), u) ∧ Chain.Restored n tiers s.1 u.1) ∨
      ∃ c ∈ Chain.counters tiers s.1, wordLimit ≤ c.allocs + n := by
  have hstands := hrun.stands_fixed hbound
  have hundoes := Chain.undoes Fixed.service Fixed.undoes htiers s.2.memory clients
  refine ⟨fun m' hw => hundoes.undo hstands hstocked ha hw, fun n => ?_⟩
  refine or_iff_not_imp_right.2 fun hfew => ?_
  have hroom : ∀ c ∈ Chain.counters tiers s.1, c.allocs + 0 + n < wordLimit :=
    fun c hc => Nat.lt_of_not_le fun hfull => hfew ⟨c, hc, hfull⟩
  have hsupply := (Chain.service Fixed.service s.2.memory tiers clients).supply
  obtain ⟨u, hcycles, hback⟩ := hundoes.cycles hsupply hstocked ha hstands hundoes.refl hroom
  rw [Nat.zero_add] at hback
  exact ⟨u, hcycles, hback⟩

/-- A chain of six tiers in 1024 bytes, where a request puts up a bucket on top, opens a chunk in
both arenas and takes a large block in between. A thousand of them all give the same block. -/
theorem restored_of_thousand_requests :
    ∃ (scene : Chain.Scene Region) (t : Chain.Book Region scene.tiers × Machine),
      Chain.Run Fixed.allocator [Fixed.reset] (⟨64, 1024, 0⟩, ⟨.zero, [], []⟩) scene.tiers
        scene.clients scene.state ∧
      scene.tiers.length = 6 ∧ scene.clients 0 = [⟨160, 10⟩] ∧
      (Chain.allocator Fixed.allocator scene.tiers).alloc 20 8 scene.state =
        .ok (.ok ⟨416, 20⟩, t) ∧
      (∃ u, (Chain.allocator Fixed.allocator scene.tiers).free ⟨416, 20⟩ t = .ok ((), u) ∧
        Chain.Restored 1 scene.tiers scene.state.1 u.1) ∧
      ∃ u, (Chain.allocator Fixed.allocator scene.tiers).cycles 20 8 1000 scene.state =
        .ok (List.replicate 1000 (.ok ⟨416, 20⟩), u) ∧
        Chain.Restored 1000 scene.tiers scene.state.1 u.1 := by
  have hplayed : ((⟨[], fun _ => [], ⟨64, 1024, 0⟩, ⟨.zero, [], []⟩⟩ : Chain.Scene Region).play
      Fixed.allocator [.raise (.arena 256), .deed 0 (.alloc 8 8), .raise .counting,
        .raise (.general 64), .raise .counting, .raise (.arena 128), .deed 0 (.alloc 40 8),
        .raise (.general 32), .deed 0 (.alloc 10 8), .deed 4 (.alloc 16 8)]).map (fun scene =>
          (scene.tiers.length, scene.clients 0,
            decide ((∀ tier ∈ scene.tiers, tier.Reuses) ∧
              Chain.Stocked scene.tiers scene.state.1 ∧
              ∀ c ∈ Chain.counters scene.tiers scene.state.1, c.allocs + 1000 < wordLimit),
            ((Chain.allocator Fixed.allocator scene.tiers).alloc 20 8
              scene.state).toOption.map (·.1))) =
      some (6, [⟨160, 10⟩], true, some (.ok ⟨416, 20⟩)) := by
    decide +kernel
  obtain ⟨scene, hplay, hends⟩ := Option.map_eq_some_iff.1 hplayed
  simp only [Prod.mk.injEq, decide_eq_true_iff] at hends
  obtain ⟨hlength, hclients, ⟨htiers, hstocked, hroom⟩, hlast⟩ := hends
  obtain ⟨⟨r, t⟩, hout, rfl⟩ := Option.map_eq_some_iff.1 hlast
  have ha := Act.ok_of_toOption hout
  have hrun : Chain.Run Fixed.allocator [Fixed.reset] _ scene.tiers scene.clients scene.state :=
    Chain.Run.start.play hplay
  obtain ⟨hfree, hcycles⟩ := restored_of_free (by decide) htiers hrun hstocked ha
  refine ⟨scene, t, hrun, hlength, hclients, ha, hfree t.2 (.refl _ _),
    (hcycles 1000).resolve_right ?_⟩
  rintro ⟨c, hc, hfull⟩
  exact Nat.not_le_of_lt (hroom c hc) hfull

end AllocChain
