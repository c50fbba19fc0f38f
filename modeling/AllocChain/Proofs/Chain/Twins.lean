import AllocChain.Proofs.Chain.Run
import AllocChain.Proofs.Chain.TierTwins

/-!
Two runs of a chain. Each tier is its own twin over the tiers below it, beside the blocks of the
client there; so whatever is asked at some depth of two chains that are alike is answered alike, and
leaves the chains alike (`Chain.step_alike`).
-/

namespace AllocChain

open Memory

theorem Deed.asks_anything (d : Deed) : d.Asks fun _ _ => True := by
  cases d with
  | resize block size align => exact .inr trivial
  | _ => trivial

theorem Deed.calls_le (d : Deed) : d.calls ≤ 1 := by
  cases d with
  | write => exact Nat.zero_le 1
  | _ => exact Nat.le_refl 1

theorem Deed.Like.proper {d d' : Deed} {out : List Slice} (h : d.Like d') (hd : d.Proper out) :
    d'.Proper out := by
  cases h with
  | refl => exact hd
  | write => exact hd

theorem Deed.Like.leaves {d d' : Deed} (h : d.Like d') (out : List Slice) (r : Answer) :
    d'.leaves out r = d.leaves out r := by
  cases h with
  | refl => rfl
  | write => cases r <;> rfl

namespace Chain

variable {β : Type} {T : Terms} {B : Allocator β} {holds holds' : List Slice → β × Machine → Prop}
  {rel : Nat → List Slice → β × Machine → β × Machine → Prop} {n k : Nat} {tiers : List Tier}
  {clients clients' : Nat → List Slice} {out ex : List Slice} {s s' : Book β tiers × Machine}
  {d d' : Deed}

/-- Tier by tier, the chains are alike beside the blocks of the clients. -/
def Twin (T : Terms) (rel : Nat → List Slice → β × Machine → β × Machine → Prop) :
    (tiers : List Tier) → (Nat → List Slice) → Nat → List Slice → Book β tiers × Machine →
      Book β tiers × Machine → Prop
  | [], _ => rel
  | tier :: tiers, clients =>
    tier.Twin T fun n out => Twin T rel tiers (fun k => clients (k + 1)) n (out ++ clients 1)

/-- The deed of the client at depth `k` asks for what is fair, or the allocator there sorts its
requests. -/
def Fair (fair : Nat → Nat → Prop) (tiers : List Tier) (k : Nat) (d : Deed) : Prop :=
  d.Asks fair ∨ ∃ tier, tiers[k]? = some tier ∧ tier.Sorts

theorem twin_congr (h : ∀ k, clients (k + 1) = clients' (k + 1)) :
    Twin T rel tiers clients = Twin T rel tiers clients' := by
  cases tiers with
  | nil => rfl
  | cons tier tiers => simp only [Twin, h]

theorem twin_update_zero {blocks : List Slice} :
    Twin T rel tiers (Function.update clients 0 blocks) = Twin T rel tiers clients :=
  twin_congr fun k => Function.update_of_ne (Nat.succ_ne_zero k) _ _

/-- A chain is its own twin if the allocator at its bottom is. -/
theorem twins (hB : Twins T B holds holds' rel) (m₀ m₀' : Memory) (tiers : List Tier)
    (clients : Nat → List Slice) :
    Twins T (allocator B tiers) (Stands holds m₀ tiers clients) (Stands holds' m₀' tiers clients)
      (Twin T rel tiers clients) := by
  induction tiers generalizing clients with
  | nil => exact hB
  | cons tier tiers ih => exact Tier.twins (tier.needsBoth ((ih _).framed _ _ _))

/-! ### Deeds -/

theorem perform_alike (hB : Twins T B holds holds' rel) {m₀ m₀' : Memory} (hlike : d.Like d')
    (hmirror : T.mirror → d' = d)
    (hp : Paired (Stands holds m₀ tiers clients) (Stands holds' m₀' tiers clients)
      (Twin T rel tiers clients (n + d.calls)) (out ++ ex) s s')
    (hd : d.Proper out) (hfair : Fair T.fair tiers 0 d) :
    Act.Alike T.may (fun r => Twin T rel tiers clients n (d.leaves out r ++ ex))
      ((allocator B tiers).perform d) ((allocator B tiers).perform d') s s' := by
  rcases hfair with hasks | ⟨tier, htier, hsorts⟩
  · exact (twins hB m₀ m₀' tiers clients).perform hlike hmirror hasks hp hd
  · cases tiers with
    | nil => cases htier
    | cons tier tiers =>
      cases htier
      have hbelow := (twins hB m₀ m₀' tiers fun k => clients (k + 1)).framed (clients 1) m₀ m₀'
      have htwins := Tier.open_twins (tier.needsBoth hbelow) hsorts
      exact htwins.perform hlike hmirror d.asks_anything hp hd

/-- What a client does at some depth is answered alike. -/
theorem deed_alike (hB : Twins T B holds holds' rel) (hk : k ≤ tiers.length) (hlike : d.Like d')
    (hmirror : T.mirror → d' = d)
    (hp : Paired (Stands holds s.2.memory tiers clients) (Stands holds' s'.2.memory tiers clients)
      (Twin T rel tiers clients (n + d.calls)) (clients 0 ++ ex) s s')
    (hd : d.Proper (clients k)) (hfair : Fair T.fair tiers k d) :
    Act.Alike T.may (fun r => Twin T rel tiers
        (Function.update clients k (d.leaves (clients k) r)) n
        (Function.update clients k (d.leaves (clients k) r) 0 ++ ex))
      ((member B tiers k).perform d) ((member B tiers k).perform d') s s' := by
  induction k generalizing tiers clients ex with
  | zero =>
    rw [member_zero]
    refine (perform_alike hB hlike hmirror hp hd hfair).imp fun r t t' _ _ hpost => ?_
    rw [twin_update_zero, Function.update_self]
    exact hpost
  | succ k ih =>
    cases tiers with
    | nil => exact absurd hk (Nat.not_succ_le_zero k)
    | cons tier tiers =>
      have hk' : k ≤ tiers.length := Nat.le_of_succ_le_succ hk
      have hT := twins hB s.2.memory s'.2.memory tiers fun k => clients (k + 1)
      -- what the tiers hold below is beside what the client there has
      have hbeside : ∀ blocks,
          Paired (Framed (Stands holds s.2.memory tiers fun k => clients (k + 1)) (clients 1)
              s.2.memory)
            (Framed (Stands holds' s'.2.memory tiers fun k => clients (k + 1)) (clients 1)
              s'.2.memory)
            (fun out => Twin T rel tiers (fun k => clients (k + 1)) (n + d.calls)
              (out ++ clients 1))
            blocks (s.1.2, s.2) (s'.1.2, s'.2) →
          Paired (Stands holds s.2.memory tiers fun k => clients (k + 1))
            (Stands holds' s'.2.memory tiers fun k => clients (k + 1))
            (Twin T rel tiers (fun k => clients (k + 1)) (n + d.calls)) (clients 1 ++ blocks)
            (s.1.2, s.2) (s'.1.2, s'.2) :=
        fun blocks hb =>
          hT.paired_perm List.perm_append_comm ⟨hb.left.1, hb.right.1, hb.related⟩
      have hbelow := fun blocks hb =>
        @ih tiers (fun j => clients (j + 1)) blocks (s.1.2, s.2) (s'.1.2, s'.2) hk'
          (hbeside blocks hb) hd hfair
      simp only [member, perform_below]
      intro hlog
      obtain ⟨blocks, hblocks⟩ := Tier.backed_paired hp
      refine Act.Alike.below ((hbelow blocks hblocks).imp fun r u u' hu hu' hpost => ?_) hlog
      have hT' := twins hB u.2.memory u'.2.memory tiers
        (Function.update (fun j => clients (j + 1)) k (d.leaves (clients (k + 1)) r))
      have hfirst := congrFun (@update_succ clients k (d.leaves (clients (k + 1)) r)) 0
      simp only [Twin]
      rw [update_succ, hfirst, Function.update_of_ne (Nat.succ_ne_zero k).symm]
      refine Tier.quiet_twin (Nat.le_add_right _ _) hp
        (fun hm => congrArg Prod.snd (hT'.mirror hm hpost))
        fun blocks hb => ⟨?_, ?_, ?_⟩
      · obtain ⟨_, _, hrel⟩ := (hbelow blocks hb).of_both hlog hu hu'
        exact hT'.perm List.perm_append_comm hrel
      · exact (step hB.service hk' (hbeside blocks hb).left hd hu).apart
      · exact (step hB.service' hk' (hbeside blocks hb).right (hlike.proper hd) hu').apart

/-- After a deed the chains stand as before, and are alike. -/
theorem step_alike (hB : Twins T B holds holds' rel) (hk : k ≤ tiers.length) (hlike : d.Like d')
    (hmirror : T.mirror → d' = d)
    (hp : Paired (Stands holds s.2.memory tiers clients) (Stands holds' s'.2.memory tiers clients)
      (Twin T rel tiers clients (n + d.calls)) (clients 0) s s')
    (hd : d.Proper (clients k)) (hfair : Fair T.fair tiers k d) :
    Act.Alike T.may (fun r t t' =>
        Paired (Stands holds t.2.memory tiers (Function.update clients k (d.leaves (clients k) r)))
          (Stands holds' t'.2.memory tiers (Function.update clients k (d.leaves (clients k) r)))
          (Twin T rel tiers (Function.update clients k (d.leaves (clients k) r)) n)
          (Function.update clients k (d.leaves (clients k) r) 0) t t')
      ((member B tiers k).perform d) ((member B tiers k).perform d') s s' := by
  rw [← List.append_nil (clients 0)] at hp
  refine (deed_alike hB hk hlike hmirror hp hd hfair).imp fun r t t' ht ht' hpost => ?_
  have hleft := (step hB.service hk hp.left hd ht).stands
  have hright := (step hB.service' hk hp.right (hlike.proper hd) ht').stands
  rw [hlike.leaves] at hright
  rw [List.append_nil] at hpost hleft hright
  exact ⟨hleft, hright, hpost⟩

/-! ### Tiers that are put up, and sweeps -/

/-- Tiers that are put up on chains that are alike make such chains. -/
theorem raise_paired (hB : Twins T B holds holds' rel) {tier : Tier}
    (hcount : T.may ∨ n < wordLimit)
    (hp : Paired (Stands holds s.2.memory tiers clients) (Stands holds' s'.2.memory tiers clients)
      (Twin T rel tiers clients n) (clients 0) s s')
    (hg : tier.ground ⊆ clients 0) :
    Paired (Stands holds s.2.memory (tier :: tiers) (raised clients tier.ground))
      (Stands holds' s'.2.memory (tier :: tiers) (raised clients tier.ground))
      (Twin T rel (tier :: tiers) (raised clients tier.ground) n) []
      ((tier.new, s.1), s.2) ((tier.new, s'.1), s'.2) := by
  refine ⟨hp.left.raise hB.service hg, hp.right.raise hB.service' hg, ?_⟩
  have hT := twins hB s.2.memory s'.2.memory tiers clients
  have hground := hT.paired_perm (ground_perm hg) hp
  have hsame : Twin T rel tiers (fun k => raised clients tier.ground (k + 1)) =
      Twin T rel tiers clients := twin_congr fun k => rfl
  have hstands : ∀ {holds : List Slice → β × Machine → Prop} {m : Memory},
      Stands holds m tiers (fun k => raised clients tier.ground (k + 1)) =
        Stands holds m tiers clients := stands_congr fun k => rfl
  have hframed : Paired
      (Framed (Stands holds s.2.memory tiers fun k => raised clients tier.ground (k + 1))
        (raised clients tier.ground 1) s.2.memory)
      (Framed (Stands holds' s'.2.memory tiers fun k => raised clients tier.ground (k + 1))
        (raised clients tier.ground 1) s'.2.memory)
      (fun out => Twin T rel tiers (fun k => raised clients tier.ground (k + 1)) n
        (out ++ raised clients tier.ground 1)) tier.ground s s' := by
    rw [hsame, hstands, hstands]
    exact ⟨⟨hground.left, .refl _ _⟩, ⟨hground.right, .refl _ _⟩, hground.related⟩
  exact Tier.twin_new (tier.needsBoth ((twins hB _ _ tiers _).framed _ _ _)) hcount hframed

/-- Sweeping the topmost tiers, or the bottoms, leaves the chains alike. -/
theorem sweep_alike (hB : Twins T B holds holds' rel) {bottom : List (Act β Unit)}
    {x : Act (Book β tiers) Unit}
    (hbottom : ∀ x ∈ bottom, ∀ {n out u u'}, Paired holds holds' (rel n) out u u' →
      Act.Alike T.may (fun _ => rel n []) x x u u')
    (hp : Paired (Stands holds s.2.memory tiers clients) (Stands holds' s'.2.memory tiers clients)
      (Twin T rel tiers clients n) (clients 0) s s')
    (hx : x ∈ sweeps B bottom tiers) :
    Act.Alike T.may (fun _ => Twin T rel tiers clients n []) x x s s' := by
  cases tiers with
  | nil => exact hbottom x hx hp
  | cons tier tiers =>
    exact Tier.sweep_alike (tier.needsBoth ((twins hB _ _ tiers _).framed _ _ _)) hp hx

end Chain
end AllocChain
