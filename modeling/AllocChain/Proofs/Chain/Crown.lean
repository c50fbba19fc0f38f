import AllocChain.Proofs.Chain.Ground

/-!
Two runs of a chain on any ground. What is known of the topmost allocator is known beside the blocks
of its client, and so on at all depths (`Chain.Ground.crown`). Whatever a client does at some depth
is answered alike in both runs, and leaves undisturbed what the tiers above stand on
(`Chain.Ground.Bears.member`); so it is with tiers that are put up, and with sweeps.
-/

namespace AllocChain

open Memory

namespace Chain
namespace Ground

variable {β : Type} {B : Allocator β} {g : Ground β} {n k : Nat} {tiers : List Tier}
  {clients : Nat → List Slice} {own ex : List Slice} {m m' : Memory} {d d' : Deed}

/-- What is known of the topmost allocator of a chain, beside the blocks of its client, which have
the bytes of `m` and `m'`. -/
def crown (m m' : Memory) (g : Ground β) : (tiers : List Tier) → (Nat → List Slice) →
    Ground (Book β tiers)
  | [], clients => g.framed (clients 0) m m'
  | tier :: tiers, clients =>
    ((g.crown m m' tiers fun k => clients (k + 1)).built tier).framed (clients 0) m m'

theorem Bears.crown (h : g.Bears B) (m m' : Memory) (tiers : List Tier)
    (clients : Nat → List Slice) : (g.crown m m' tiers clients).Bears (allocator B tiers) := by
  induction tiers generalizing clients with
  | nil => exact h.framed _ _ _
  | cons tier tiers ih => exact ((ih _).built tier).framed _ _ _

/-- The memories to compare with may be those of now. -/
theorem Bears.anchor (h : g.Bears B) (m m' : Memory) (clients : Nat → List Slice)
    (s s' : Book β tiers × Machine) :
    Passes 0 s s' s s' (g.crown m m' tiers clients)
      (g.crown s.2.memory s'.2.memory tiers clients) := by
  induction tiers generalizing clients with
  | nil => exact (Passes.refl g s s').framed _ _ _
  | cons tier tiers ih =>
    have hbelow := ih (fun k => clients (k + 1)) (s.1.2, s.2) (s'.1.2, s'.2)
    exact (hbelow.built (h.crown m m' tiers _)).framed _ _ _

/-! ### Deeds -/

theorem Undisturbed.of_perform {holds : List Slice → β × Machine → Prop} (hS : Service B holds)
    {s t : β × Machine} {r : Answer} (hd : d.Proper own) (hp : B.perform d s = .ok (r, t)) :
    Undisturbed (Framed holds own m) (Framed holds (d.leaves own r) t.2.memory) s t := by
  rintro out ⟨hh, _⟩
  have hbeside : Framed holds out s.2.memory own s :=
    ⟨hS.supply.perm List.perm_append_comm hh, .refl _ _⟩
  obtain ⟨⟨hkept, hsame⟩, _⟩ := (hS.framed out s.2.memory).step hbeside hd hp
  exact ⟨⟨hS.supply.perm List.perm_append_comm hkept, .refl _ _⟩, hsame⟩

theorem Bears.deed {s s' : β × Machine} (h : g.Bears B) (hlike : d.Like d') (hd : d.Proper own)
    (hp : (g.framed own m m').Pair (n + d.calls) ex s s') :
    Act.Alike True (fun r t t' => Passes d.calls s s' t t' (g.framed own m m')
        (g.framed (d.leaves own r) t.2.memory t'.2.memory))
      (B.perform d) (B.perform d') s s' := by
  cases h with
  | rough hB =>
    refine (hB.toBlind.perform hlike hp.related).imp fun r t t' ht ht' hbook => ?_
    refine .rough (fun rooms hh => hB.step hh hd ht) (fun rooms hh => ?_) fun _ => hbook
    have hstep := hB.step hh (hlike.proper hd) ht'
    rwa [hlike.leaves] at hstep
  | @firm holds holds' rel hT _ =>
    have halike := fun n out
        (hp : Paired (Framed holds own m) (Framed holds' own m')
          (fun out => rel (n + d.calls) (out ++ own)) out s s') =>
      hT.perform hlike False.elim d.asks_anything
        (hT.paired_perm List.perm_append_comm ⟨hp.left.1, hp.right.1, hp.related⟩) hd
    intro hlog
    refine Act.Alike.imp (halike n ex hp) (fun r t t' ht ht' _ => ?_) hlog
    have hright := Undisturbed.of_perform (m := m') hT.service' (hlike.proper hd) ht'
    rw [hlike.leaves] at hright
    refine .firm (.of_perform hT.service hd ht) hright fun n out hp => ?_
    exact hT.perm List.perm_append_comm ((halike n out hp).of_both hlog ht ht').2.2

/-- What a client does at some depth is answered alike, and leaves undisturbed what is on top. -/
theorem Bears.member {s s' : Book β tiers × Machine} (h : g.Bears B) (hk : k ≤ tiers.length)
    (hlike : d.Like d') (hd : d.Proper (clients k))
    (hp : (g.crown m m' tiers clients).Pair (n + d.calls) ex s s') :
    Act.Alike True (fun r t t' => Passes d.calls s s' t t' (g.crown m m' tiers clients)
        (g.crown t.2.memory t'.2.memory tiers
          (Function.update clients k (d.leaves (clients k) r))))
      ((member B tiers k).perform d) ((member B tiers k).perform d') s s' := by
  induction k generalizing tiers clients ex with
  | zero =>
    rw [member_zero]
    cases tiers with
    | nil =>
      refine (h.deed hlike hd hp).imp fun r t t' _ _ hpass => ?_
      simp only [Ground.crown, Function.update_self]
      exact hpass
    | cons tier tiers =>
      have hbelow := h.crown m m' tiers fun k => clients (k + 1)
      refine ((hbelow.built tier).deed hlike hd hp).imp fun r t t' _ _ hpass => ?_
      have hanchor := h.anchor m m' (fun k => clients (k + 1)) (t.1.2, t.2) (t'.1.2, t'.2)
      simp only [Ground.crown, Function.update_self, Function.update_of_ne (Nat.succ_ne_zero _)]
      exact hpass.trans ((hanchor.built hbelow).framed _ _ _)
  | succ k ih =>
    cases tiers with
    | nil => exact absurd hk (Nat.not_succ_le_zero k)
    | cons tier tiers =>
      have hbelow := h.crown m m' tiers fun k => clients (k + 1)
      obtain ⟨blocks, hblocks⟩ := hp.unframed
      obtain ⟨blocks, hblocks⟩ := hbelow.below hblocks
      have halike := @ih tiers (fun k => clients (k + 1)) blocks (s.1.2, s.2) (s'.1.2, s'.2)
        (Nat.le_of_succ_le_succ hk) hd hblocks
      simp only [Chain.member, perform_below]
      refine Act.Alike.below (halike.imp fun r u u' _ _ hpass => ?_)
      simp only [Ground.crown, Function.update_of_ne (Nat.succ_ne_zero k).symm]
      rw [update_succ]
      exact (hpass.built hbelow).framed _ _ _

/-! ### Tiers that are put up, and sweeps -/

theorem Bears.raised {s s' : Book β tiers × Machine} {tier : Tier} (h : g.Bears B)
    (hp : (g.crown s.2.memory s'.2.memory tiers clients).Pair n [] s s')
    (hg : tier.ground ⊆ clients 0) :
    (g.crown s.2.memory s'.2.memory (tier :: tiers) (raised clients tier.ground)).Pair n []
      ((tier.new, s.1), s.2) ((tier.new, s'.1), s'.2) := by
  have hground : (g.crown s.2.memory s'.2.memory tiers
      fun k => Chain.raised clients tier.ground (k + 1)).Pair n tier.ground s s' := by
    cases tiers with
    | nil => exact h.cede hp (ground_perm hg)
    | cons next tiers =>
      have hbelow := (h.crown s.2.memory s'.2.memory tiers fun k => clients (k + 1)).built next
      exact hbelow.cede hp (ground_perm hg)
  exact Pair.alone ((h.crown _ _ tiers _).raise hground) _ _

/-- A sweep of the topmost allocator takes the blocks of its client back, in both runs. -/
theorem Bears.swept {s s' : Book β tiers × Machine} {bottom : List (Act β Unit)}
    {x : Act (Book β tiers) Unit} (h : g.Bears B)
    (hbottom : ∀ x ∈ bottom, ∀ n out s s', g.Pair n out s s' →
      Act.Alike True (fun _ => g.Pair n []) x x s s')
    (hp : (g.crown s.2.memory s'.2.memory tiers clients).Pair n [] s s')
    (hx : x ∈ sweeps B bottom tiers) :
    Act.Alike True (fun _ t t' => (g.crown t.2.memory t'.2.memory tiers
      (Function.update clients 0 [])).Pair n [] t t') x x s s' := by
  cases tiers with
  | nil =>
    obtain ⟨blocks, hblocks⟩ := hp.unframed
    refine (hbottom x hx n blocks s s' hblocks).imp fun _ t t' _ _ hpost => ?_
    simp only [Ground.crown, Function.update_self]
    exact hpost.alone _ _
  | cons tier tiers =>
    have hbelow := h.crown s.2.memory s'.2.memory tiers fun k => clients (k + 1)
    obtain ⟨blocks, hblocks⟩ := hp.unframed
    refine (hbelow.sweep hblocks hx).imp fun _ t t' _ _ hpost => ?_
    have hanchor := h.anchor s.2.memory s'.2.memory (fun k => clients (k + 1)) (t.1.2, t.2)
      (t'.1.2, t'.2)
    simp only [Ground.crown, Function.update_self, Function.update_of_ne (Nat.succ_ne_zero _)]
    exact ((hanchor.built hbelow).pair hpost).alone _ _

end Ground
end Chain
end AllocChain
