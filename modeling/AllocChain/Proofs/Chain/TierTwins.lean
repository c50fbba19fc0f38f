import AllocChain.Proofs.Bump.ArenaTwins
import AllocChain.Proofs.Bump.SlabTwins
import AllocChain.Proofs.Chain.Tier
import AllocChain.Proofs.Classes.Twins
import AllocChain.Proofs.CountingTwins

/-!
Two runs of a tier. Whatever tier is put on an allocator that is its own twin is its own twin
(`Tier.twins`); if the tier does more than count, it may be asked anything, whatever is fair to ask
below (`Tier.open_twins`). As in one run, a tier has to know of what happens below only that its own
blocks there stay and keep their bytes (`Tier.quiet_twin`).
-/

namespace AllocChain

open Memory Region

namespace Tier

variable {β : Type} {T : Terms} {B : Allocator β} {holds holds' : List Slice → β × Machine → Prop}
  {rel rel' : Nat → List Slice → β × Machine → β × Machine → Prop} {n : Nat} {out : List Slice}
  {tier : Tier} {s s' : (tier.Book × β) × Machine} {u u' : β × Machine}

/-- The bookkeeping is the same, and the tiers stand on the same blocks below, with the same blocks
of theirs in them. -/
def Twin (T : Terms) (rel : Nat → List Slice → β × Machine → β × Machine → Prop) :
    (tier : Tier) → Nat → List Slice → (tier.Book × β) × Machine → (tier.Book × β) × Machine → Prop
  | fixed _ => Fixed.SeatedTwin T rel
  | arena _ => Arena.Twin rel
  | slabs _ => SlabPool.Twin rel
  | general _ => GeneralPurpose.Twin rel
  | counting => Counters.Twin T rel

/-- The tier does not pass on every request as it is. -/
def Sorts : Tier → Prop
  | counting => False
  | _ => True

instance : DecidablePred Sorts
  | fixed _ | arena _ | slabs _ | general _ => isTrue trivial
  | counting => isFalse id

/-- What a tier has to be offered in both runs. -/
def NeedsBoth (T : Terms) (B : Allocator β) (holds holds' : List Slice → β × Machine → Prop)
    (rel : Nat → List Slice → β × Machine → β × Machine → Prop) : Tier → Prop
  | fixed _ | arena _ | slabs _ => Kindred T B holds holds' rel
  | general _ | counting => Twins T B holds holds' rel

theorem needsBoth (hB : Twins T B holds holds' rel) (tier : Tier) :
    tier.NeedsBoth T B holds holds' rel := by
  cases tier with
  | fixed | arena | slabs => exact hB.toKindred
  | general | counting => exact hB

theorem NeedsBoth.left (h : tier.NeedsBoth T B holds holds' rel) : tier.Needs B holds := by
  cases tier with
  | fixed | arena | slabs => exact Kindred.left h
  | general | counting => exact Twins.service h

theorem NeedsBoth.right (h : tier.NeedsBoth T B holds holds' rel) : tier.Needs B holds' := by
  cases tier with
  | fixed | arena | slabs => exact Kindred.right h
  | general | counting => exact Twins.service' h

/-- A tier that sorts its requests may be asked anything. -/
theorem open_twins (hB : tier.NeedsBoth T B holds holds' rel) (h : tier.Sorts) :
    Twins T.open (tier.allocator B) (tier.Stands holds) (tier.Stands holds')
      (tier.Twin T rel) := by
  cases tier with
  | fixed buffer => exact Fixed.seated_twins hB
  | arena n => exact (Arena.twins hB).during (Arena.steady_roomy B)
  | slabs n => exact SlabPool.twins hB
  | general n => exact GeneralPurpose.twins hB
  | counting => exact h.elim

/-- Every tier is its own twin if the allocator below is. -/
theorem twins (hB : tier.NeedsBoth T B holds holds' rel) :
    Twins T (tier.allocator B) (tier.Stands holds) (tier.Stands holds') (tier.Twin T rel) := by
  by_cases h : tier.Sorts
  · exact (open_twins hB h).close
  · cases tier with
    | counting => exact Counters.twins hB
    | _ => exact absurd trivial h

theorem Twin.book (h : tier.Twin T rel n out s s') : s'.1.1 = s.1.1 := by
  cases tier with
  | fixed buffer => exact h.seated.region
  | arena n => exact h.own
  | slabs n => exact h.own
  | general n => exact h.own
  | counting => exact h.own

theorem Twin.beneath (h : tier.Twin T rel n out s s') :
    ∃ blocks, rel n blocks (s.1.2, s.2) (s'.1.2, s'.2) := by
  cases tier with
  | fixed buffer => exact ⟨_, Fixed.SeatedTwin.below h⟩
  | arena n => exact ⟨_, h.below⟩
  | slabs n => exact ⟨_, h.below⟩
  | general n => exact ⟨_, h.below⟩
  | counting => exact ⟨_, h.below⟩

theorem backed_paired
    (hp : Paired (tier.Stands holds) (tier.Stands holds') (tier.Twin T rel n) out s s') :
    ∃ blocks, Paired holds holds' (rel n) blocks (s.1.2, s.2) (s'.1.2, s'.2) := by
  cases tier with
  | fixed buffer => exact ⟨_, Fixed.SeatedTwin.backed hp⟩
  | arena n =>
    obtain ⟨es, _, h⟩ := Arena.Twin.both ⟨hp.left.1, hp.right.1, hp.related⟩
    exact ⟨_, h.below⟩
  | slabs n => exact ⟨_, hp.related.paired hp.left.backed.1 hp.right.backed.1⟩
  | general n => exact ⟨_, hp.related.paired hp.left.1.backed.1 hp.right.1.backed.1⟩
  | counting => exact ⟨_, hp.left.backed.1, hp.right.backed.1, hp.related.below⟩

theorem twin_new (hB : tier.NeedsBoth T B holds holds' rel) (hcount : T.may ∨ n < wordLimit)
    (hp : Paired holds holds' (rel n) tier.ground u u') :
    tier.Twin T rel n [] ((tier.new, u.1), u.2) ((tier.new, u'.1), u'.2) := by
  cases tier with
  | fixed buffer =>
    have hbound : buffer.Bounded :=
      hB.left.supply.bounded hp.left buffer (List.mem_singleton_self _)
    refine ⟨hp.related, rfl, ⟨[], .nil, sound_empty hbound (Nat.zero_le _),
      sound_empty hbound (Nat.zero_le _)⟩, ?_, fun hm => ?_⟩
    · exact (hB.low hp).imp_right fun hlow => hlow buffer (List.mem_singleton_self _)
    · rw [hB.mirror hm hp.related]
  | arena n => exact ⟨⟨rfl, hp.related⟩, [], .nil, .nil, .nil⟩
  | slabs n => exact ⟨rfl, hp.related⟩
  | general n =>
    refine ⟨rfl, ?_⟩
    simp only [new, GeneralPurpose.held_new]
    exact hp.related
  | counting =>
    refine ⟨⟨rfl, hp.related⟩, hcount.imp_right fun h => ?_⟩
    simp only [new, Counters.zero, Nat.zero_add]
    exact h

/-- Sweeps take back the same blocks. -/
theorem sweep_alike (hB : tier.NeedsBoth T B holds holds' rel) {x : Act (tier.Book × β) Unit}
    (hp : Paired (tier.Stands holds) (tier.Stands holds') (tier.Twin T rel n) out s s')
    (hx : x ∈ tier.sweeps B) :
    Act.Alike T.may (fun _ => tier.Twin T rel n []) x x s s' := by
  cases tier with
  | fixed buffer =>
    rw [List.mem_singleton.1 hx]
    exact Fixed.seated_reset_alike hB hp
  | arena chunkSize =>
    have hkept : Paired (Stacking.Holds (Arena.Kept holds)) (Stacking.Holds (Arena.Kept holds'))
        (Arena.Twin rel n) out s s' := ⟨hp.left.1, hp.right.1, hp.related⟩
    rcases List.mem_pair.1 hx with rfl | rfl
    · exact Arena.reset_alike hB hkept
    · exact Arena.destroy_alike hB hkept
  | slabs n =>
    rw [List.mem_singleton.1 hx]
    exact SlabPool.destroy_alike hB hp
  | general n =>
    rw [List.mem_singleton.1 hx]
    exact GeneralPurpose.destroy_alike hB hp
  | counting => cases hx

/-- What happens below in both runs and leaves there what the tiers hold, whatever that is, leaves
the tiers alike. -/
theorem quiet_twin {n' : Nat} (hle : n ≤ n')
    (hp : Paired (tier.Stands holds) (tier.Stands holds') (tier.Twin T rel n') out s s')
    (hmirror : T.mirror → u'.2 = u.2)
    (hq : ∀ blocks, Paired holds holds' (rel n') blocks (s.1.2, s.2) (s'.1.2, s'.2) →
      rel' n blocks u u' ∧ AgreesOn blocks s.2.memory u.2.memory ∧
        AgreesOn blocks s'.2.memory u'.2.memory) :
    tier.Twin T rel' n out ((s.1.1, u.1), u.2) ((s'.1.1, u'.1), u'.2) := by
  cases tier with
  | fixed buffer =>
    obtain ⟨hrel, hsame, hsame'⟩ := hq _ (Fixed.SeatedTwin.backed hp)
    have hregion : s'.1.1 = s.1.1 := hp.related.seated.region
    obtain ⟨es, hperm, hk, hk'⟩ := hp.related.seated.stacked
    -- the headers lie in the buffer
    have hin : ∀ header ∈ es.map Entry.header, ∃ o ∈ [s.1.1.buffer], header.Inside o := by
      intro header hmem
      obtain ⟨e, he, rfl⟩ := List.mem_map.1 hmem
      exact ⟨_, List.mem_singleton_self _, e.header_inside.trans (Sound.extent_inside hk he)⟩
    refine ⟨hrel, hregion, ⟨es, hperm, Sound.memory hk (hsame.inside hin),
      Sound.memory hk' (hsame'.inside hin)⟩, hp.related.seated.top, fun hm => ?_⟩
    rw [hregion, hmirror hm]
  | arena n =>
    obtain ⟨es, hperm, h⟩ := Arena.Twin.both ⟨hp.left.1, hp.right.1, hp.related⟩
    obtain ⟨hrel, hsame, hsame'⟩ := hq _ h.below
    exact ⟨⟨h.own, hrel⟩, es, hperm, h.left.behind hsame, h.right.behind hsame'⟩
  | slabs n =>
    exact ⟨hp.related.own, (hq _ (hp.related.paired hp.left.backed.1 hp.right.backed.1)).1⟩
  | general n =>
    exact ⟨hp.related.own, (hq _ (hp.related.paired hp.left.1.backed.1 hp.right.1.backed.1)).1⟩
  | counting =>
    obtain ⟨hrel, _⟩ := hq _ ⟨hp.left.backed.1, hp.right.backed.1, hp.related.below⟩
    refine ⟨⟨hp.related.own, hrel⟩, hp.related.counted.imp_right fun h => ?_⟩
    simp only
    omega

end Tier
end AllocChain
