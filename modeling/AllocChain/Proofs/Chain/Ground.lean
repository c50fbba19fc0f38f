import AllocChain.Proofs.Chain.Twins
import AllocChain.Proofs.Classes.Rooms

/-!
What allocators stand on in two runs whose clients write different bytes. Of some allocators it is
only known that they have rooms, and keep the same books in both runs; of others that they offer the
whole interface, and how their states are related (`Chain.Ground`). Tiers that put their blocks into
those from below offer the whole interface on whatever ground; the others pass on what they are
promised (`Chain.Ground.built`). What is known of the topmost allocator of a chain, beside the
blocks of the clients at all depths (`Chain.Ground.crown`), stays true through all that clients do.
-/

namespace AllocChain

open Memory

namespace Chain

/-- What is known of an allocator in two runs: which rooms may be taken, by the same books in both,
or which blocks may be outstanding in each, and how the states are related. -/
inductive Ground (β : Type) where
  | rough (lodges : List Slice → β → Prop)
  | firm (holds holds' : List Slice → β × Machine → Prop)
      (rel : Nat → List Slice → β × Machine → β × Machine → Prop)

namespace Ground

variable {β : Type}

/-- The blocks may be outstanding in the first run. -/
def holds : Ground β → List Slice → β × Machine → Prop
  | rough lodges => Sheltered lodges
  | firm holds _ _ => holds

/-- The blocks may be outstanding in the second run. -/
def holds' : Ground β → List Slice → β × Machine → Prop
  | rough lodges => Sheltered lodges
  | firm _ holds' _ => holds'

def rel : Ground β → Nat → List Slice → β × Machine → β × Machine → Prop
  | rough _ => fun _ _ s s' => s'.1 = s.1
  | firm _ _ rel => rel

/-- The states of both runs, with the blocks of `out` outstanding. -/
abbrev Pair (g : Ground β) (n : Nat) (out : List Slice) (s s' : β × Machine) : Prop :=
  Paired g.holds g.holds' (g.rel n) out s s'

/-- What is known is true of the allocator. -/
inductive Bears (A : Allocator β) : Ground β → Prop
  | rough {lodges} : Spacious A lodges → Bears A (.rough lodges)
  | firm {holds holds' rel} : Twins .blind A holds holds' rel →
      (∀ {n out s s'}, rel n out s s' → s'.1 = s.1) → Bears A (.firm holds holds' rel)

/-- Beside the blocks those of others are outstanding, which have the bytes of `m` and `m'`. -/
def framed (others : List Slice) (m m' : Memory) : Ground β → Ground β
  | rough lodges => .rough (Shared lodges others)
  | firm holds holds' rel =>
    .firm (Framed holds others m) (Framed holds' others m') fun n out => rel n (out ++ others)

/-- What is known of a tier on this ground. -/
def built : Ground β → (tier : Tier) → Ground (tier.Book × β)
  | rough lodges, .general _ =>
    .rough (GeneralPurpose.Housed lodges)
  | rough lodges, .counting => .rough fun rooms s => lodges rooms s.2
  | g, tier => .firm (tier.Stands g.holds) (tier.Stands g.holds') (tier.Twin .blind g.rel)

/-- What is known of the ground with a watch on it. -/
def watched : Ground β → Ground (List Call × β)
  | rough lodges => .rough fun rooms s => lodges rooms s.2
  | firm holds holds' rel =>
    .firm (Traced (NonNull holds)) (Traced (NonNull holds')) (WatchedTwin (fun _ _ => True) rel)

variable {A : Allocator β} {g g₂ g₃ : Ground β} {tier : Tier} {n j : Nat}
  {out others : List Slice} {m m' : Memory} {s s' u u' : β × Machine}

theorem Bears.book (h : g.Bears A) (hrel : g.rel n out s s') : s'.1 = s.1 := by
  cases h with
  | rough _ => exact hrel
  | firm _ hbook => exact hbook hrel

theorem Bears.framed (h : g.Bears A) (others : List Slice) (m m' : Memory) :
    (g.framed others m m').Bears A := by
  cases h with
  | rough hB => exact .rough (hB.shared others)
  | firm hT hbook => exact .firm (hT.framed others m m') hbook

/-- To take all blocks of an arena back nothing need be resized. -/
theorem still_releaseAll (A : Allocator β) : Arena.releaseAll A.still = Arena.releaseAll A := by
  funext chunks
  induction chunks with
  | nil => rfl
  | cons chunk chunks ih =>
    simp only [Arena.releaseAll, ih]
    rfl

/-- A tier on the ground either offers the whole interface, since it gets what it needs from below,
though nothing may be resized there; or it passes on the rooms that there are. -/
theorem Bears.kinds (h : g.Bears A) (tier : Tier) :
    (∃ A', tier.allocator A' = tier.allocator A ∧ tier.sweeps A' = tier.sweeps A ∧
      tier.NeedsBoth .blind A' g.holds g.holds' g.rel ∧
      g.built tier = .firm (tier.Stands g.holds) (tier.Stands g.holds') (tier.Twin .blind g.rel)) ∨
      ∃ lodges, g = .rough lodges ∧ Spacious A lodges ∧
        (tier = .counting ∨ ∃ bucketSize, tier = .general bucketSize) := by
  cases h with
  | rough hB =>
    cases tier with
    | fixed buffer => exact .inl ⟨A.still, rfl, rfl, hB.kindred, rfl⟩
    | arena n =>
      refine .inl ⟨A.still, rfl, ?_, hB.kindred, rfl⟩
      simp only [Tier.sweeps, Arena.reset, Arena.destroy, still_releaseAll]
    | slabs n =>
      refine .inl ⟨A.still, rfl, ?_, hB.kindred, rfl⟩
      simp only [Tier.sweeps, SlabPool.destroy, still_freeAll]
    | general n => exact .inr ⟨_, rfl, hB, .inr ⟨n, rfl⟩⟩
    | counting => exact .inr ⟨_, rfl, hB, .inl rfl⟩
  | firm hT _ => exact .inl ⟨A, rfl, rfl, tier.needsBoth hT, rfl⟩

/-- Every tier bears what is known of it. -/
theorem Bears.built (h : g.Bears A) (tier : Tier) : (g.built tier).Bears (tier.allocator A) := by
  rcases h.kinds tier with ⟨A', hsame, _, hneeds, hover⟩ | ⟨lodges, rfl, hB, rfl | ⟨n, rfl⟩⟩
  · rw [hover, ← hsame]
    refine .firm (Tier.twins hneeds) fun htwin => ?_
    obtain ⟨blocks, hbelow⟩ := htwin.beneath
    exact Prod.ext htwin.book (h.book hbelow)
  · exact .rough (hB.relayed (Counters.relays A) (Counters.blind hB.toBlind))
  · exact .rough (GeneralPurpose.spacious hB)

theorem Bears.watched (h : g.Bears A) : g.watched.Bears A.watched := by
  cases h with
  | rough hB => exact .rough (hB.relayed A.watched_relays hB.toBlind.watched)
  | firm hT hbook =>
    exact .firm hT.watched fun h => Prod.ext h.atop.own (hbook h.atop.below)

theorem Pair.watched {s s' : β × Machine} (hp : g.Pair n [] s s') :
    g.watched.Pair n [] (([], s.1), s.2) (([], s'.1), s'.2) := by
  cases g with
  | rough lodges => exact ⟨hp.left, hp.right, congrArg (Prod.mk _) hp.related⟩
  | firm holds holds' rel =>
    exact ⟨.nil ⟨hp.left, by simp⟩, .nil ⟨hp.right, by simp⟩, ⟨⟨rfl, hp.related⟩, by simp⟩⟩

/-! ### What happens in both runs -/

/-- What happened left the blocks that may be outstanding, whichever these are, and their bytes. -/
def Undisturbed (holds holds₂ : List Slice → β × Machine → Prop) (s u : β × Machine) : Prop :=
  ∀ out, holds out s → holds₂ out u ∧ AgreesOn out s.2.memory u.2.memory

/-- What happened in both runs, with `j` calls, left the ground undisturbed, though something else
may be known of it now. -/
inductive Passes (j : Nat) (s s' u u' : β × Machine) : Ground β → Ground β → Prop
  | rough {lodges lodges₂} :
      Undisturbed (fun rooms v => lodges rooms v.1) (fun rooms v => lodges₂ rooms v.1) s u →
      Undisturbed (fun rooms v => lodges rooms v.1) (fun rooms v => lodges₂ rooms v.1) s' u' →
      (s'.1 = s.1 → u'.1 = u.1) → Passes j s s' u u' (.rough lodges) (.rough lodges₂)
  | firm {holds holds' rel holds₂ holds₂' rel₂} : Undisturbed holds holds₂ s u →
      Undisturbed holds' holds₂' s' u' →
      (∀ n out, Paired holds holds' (rel (n + j)) out s s' → rel₂ n out u u') →
      Passes j s s' u u' (.firm holds holds' rel) (.firm holds₂ holds₂' rel₂)

theorem Undisturbed.refl (holds : List Slice → β × Machine → Prop) (s : β × Machine) :
    Undisturbed holds holds s s :=
  fun _ hh => ⟨hh, .refl _ _⟩

theorem Undisturbed.trans {holds holds₂ holds₃ : List Slice → β × Machine → Prop}
    {s u v : β × Machine} (h : Undisturbed holds holds₂ s u) (h₂ : Undisturbed holds₂ holds₃ u v) :
    Undisturbed holds holds₃ s v := by
  intro out hh
  obtain ⟨hkept, hsame⟩ := h out hh
  obtain ⟨hkept₂, hsame₂⟩ := h₂ out hkept
  exact ⟨hkept₂, hsame.trans hsame₂⟩

theorem Undisturbed.sheltered {lodges lodges₂ : List Slice → β → Prop}
    (h : Undisturbed (fun rooms v => lodges rooms v.1) (fun rooms v => lodges₂ rooms v.1) s u) :
    Undisturbed (Sheltered lodges) (Sheltered lodges₂) s u := by
  rintro out ⟨rooms, hcov, hh⟩
  obtain ⟨hkept, hsame⟩ := h rooms hh
  refine ⟨⟨rooms, hcov, hkept⟩, hsame.inside fun block hb => ?_⟩
  obtain ⟨room, hmem, hfit⟩ := hcov.fits hb
  exact ⟨room, hmem, hfit.inside⟩

section Rooms

variable {lodges lodges₂ : List Slice → β → Prop}

theorem Undisturbed.shared
    (h : Undisturbed (fun rooms v => lodges rooms v.1) (fun rooms v => lodges₂ rooms v.1) s u)
    (others : List Slice) :
    Undisturbed (fun rooms v => Shared lodges others rooms v.1)
      (fun rooms v => Shared lodges₂ others rooms v.1) s u := by
  rintro rooms ⟨own, hcov, hh⟩
  obtain ⟨hkept, hsame⟩ := h (rooms ++ own) hh
  exact ⟨⟨own, hcov, hkept⟩, hsame.subset (List.subset_append_left _ _)⟩

theorem Undisturbed.housed {s : (GeneralPurpose × β) × Machine}
    (h : Undisturbed (fun rooms v => lodges rooms v.1) (fun rooms v => lodges₂ rooms v.1)
      (s.1.2, s.2) u) :
    Undisturbed (fun rooms v => GeneralPurpose.Housed lodges rooms v.1)
      (fun rooms v => GeneralPurpose.Housed lodges₂ rooms v.1) s ((s.1.1, u.1), u.2) := by
  rintro rooms ⟨wide, hq⟩
  obtain ⟨hkept, hsame⟩ := h _ hq.backed
  refine ⟨⟨wide, { hq with backed := hkept }⟩, hsame.inside fun room hr => ?_⟩
  exact hq.fits_span hr

end Rooms

theorem Undisturbed.framed {holds holds₂ : List Slice → β × Machine → Prop}
    (h : Undisturbed holds holds₂ s u) (others : List Slice) (m : Memory) :
    Undisturbed (Framed holds others m) (Framed holds₂ others u.2.memory) s u := by
  rintro out ⟨hh, _⟩
  obtain ⟨hkept, hsame⟩ := h (out ++ others) hh
  exact ⟨⟨hkept, .refl _ _⟩, hsame.subset (List.subset_append_left _ _)⟩

namespace Passes

theorem refl (g : Ground β) (s s' : β × Machine) : Passes 0 s s' s s' g g := by
  cases g with
  | rough lodges => exact .rough (.refl _ _) (.refl _ _) id
  | firm holds holds' rel => exact .firm (.refl _ _) (.refl _ _) fun _ _ hp => hp.related

theorem left (h : Passes j s s' u u' g g₂) : Undisturbed g.holds g₂.holds s u := by
  cases h with
  | rough hleft _ _ => exact hleft.sheltered
  | firm hleft _ _ => exact hleft

theorem right (h : Passes j s s' u u' g g₂) : Undisturbed g.holds' g₂.holds' s' u' := by
  cases h with
  | rough _ hright _ => exact hright.sheltered
  | firm _ hright _ => exact hright

theorem related (h : Passes j s s' u u' g g₂) (hp : g.Pair (n + j) out s s') :
    g₂.rel n out u u' := by
  cases h with
  | rough _ _ hbook => exact hbook hp.related
  | firm _ _ hrel => exact hrel n out hp

theorem pair (h : Passes j s s' u u' g g₂) (hp : g.Pair (n + j) out s s') : g₂.Pair n out u u' :=
  ⟨(h.left out hp.left).1, (h.right out hp.right).1, h.related hp⟩

/-- What is known may be put in other words afterwards. -/
theorem trans (h : Passes j s s' u u' g g₂) (h₂ : Passes 0 u u' u u' g₂ g₃) :
    Passes j s s' u u' g g₃ := by
  cases h with
  | rough hleft hright hbook =>
    cases h₂ with
    | rough hleft₂ hright₂ _ => exact .rough (hleft.trans hleft₂) (hright.trans hright₂) hbook
  | firm hleft hright hrel =>
    cases h₂ with
    | firm hleft₂ hright₂ hrel₂ =>
      refine .firm (hleft.trans hleft₂) (hright.trans hright₂) fun n out hp => hrel₂ n out ?_
      exact ⟨(hleft out hp.left).1, (hright out hp.right).1, hrel n out hp⟩

theorem framed (h : Passes j s s' u u' g g₂) (others : List Slice) (m m' : Memory) :
    Passes j s s' u u' (g.framed others m m') (g₂.framed others u.2.memory u'.2.memory) := by
  cases h with
  | rough hleft hright hbook => exact .rough (hleft.shared others) (hright.shared others) hbook
  | firm hleft hright hrel =>
    refine .firm (hleft.framed others m) (hright.framed others m') fun n out hp => ?_
    exact hrel n (out ++ others) ⟨hp.left.1, hp.right.1, hp.related⟩

theorem built {s s' : (tier.Book × β) × Machine} (hg : g.Bears A)
    (h : Passes j (s.1.2, s.2) (s'.1.2, s'.2) u u' g g₂) :
    Passes j s s' ((s.1.1, u.1), u.2) ((s'.1.1, u'.1), u'.2) (g.built tier) (g₂.built tier) := by
  have hfirm : ∀ A', tier.NeedsBoth .blind A' g.holds g.holds' g.rel →
      Passes j s s' ((s.1.1, u.1), u.2) ((s'.1.1, u'.1), u'.2)
        (.firm (tier.Stands g.holds) (tier.Stands g.holds') (tier.Twin .blind g.rel))
        (.firm (tier.Stands g₂.holds) (tier.Stands g₂.holds') (tier.Twin .blind g₂.rel)) := by
    intro A' hneeds
    refine .firm (fun out hh => Tier.quiet hneeds.left hh h.left)
      (fun out hh => Tier.quiet hneeds.right hh h.right) fun n out hp => ?_
    refine Tier.quiet_twin (Nat.le_add_right n j) hp False.elim fun blocks hb => ?_
    exact ⟨h.related hb, (h.left blocks hb.left).2, (h.right blocks hb.right).2⟩
  cases h with
  | firm _ _ _ =>
    cases hg with
    | firm hT _ => exact hfirm A (tier.needsBoth hT)
  | rough hleft hright hbook =>
    cases hg with
    | rough hB =>
      -- the books of the tier stay, and those below stay the same in both runs
      have hboth : s'.1 = s.1 → (s'.1.1, u'.1) = (s.1.1, u.1) := fun heq => by
        rw [hbook (congrArg Prod.snd heq), heq]
      cases tier with
      | fixed | arena | slabs => exact hfirm A.still hB.kindred
      | general n => exact .rough hleft.housed hright.housed hboth
      | counting => exact .rough hleft hright hboth

end Passes

/-! ### Tiers -/

/-- A tier that is put up on some blocks. -/
theorem Bears.raise (h : g.Bears A) (hp : g.Pair n tier.ground s s') :
    (g.built tier).Pair n [] ((tier.new, s.1), s.2) ((tier.new, s'.1), s'.2) := by
  rcases h.kinds tier with ⟨A', _, _, hneeds, hover⟩ | ⟨lodges, rfl, hB, rfl | ⟨k, rfl⟩⟩
  · rw [hover]
    exact ⟨Tier.stands_new hneeds.left hp.left, Tier.stands_new hneeds.right hp.right,
      Tier.twin_new hneeds (.inl trivial) hp⟩
  · exact ⟨hp.left, hp.right, congrArg (Prod.mk _) hp.related⟩
  · have hbare : ∀ {v : β × Machine}, Sheltered lodges [] v →
        Sheltered (GeneralPurpose.Housed lodges) [] ((GeneralPurpose.new k, v.1), v.2) :=
      fun ⟨_, _, hh⟩ =>
        ⟨[], .nil [], [], .bare (.new k) (GeneralPurpose.buckets_new k) rfl (hB.empty hh)⟩
    exact ⟨hbare hp.left, hbare hp.right, congrArg (Prod.mk _) hp.related⟩

theorem Bears.below (h : g.Bears A) {s s' : (tier.Book × β) × Machine}
    (hp : (g.built tier).Pair n out s s') :
    ∃ blocks, g.Pair n blocks (s.1.2, s.2) (s'.1.2, s'.2) := by
  rcases h.kinds tier with ⟨A', _, _, _, hover⟩ | ⟨lodges, rfl, hB, rfl | ⟨k, rfl⟩⟩
  · rw [hover] at hp
    exact Tier.backed_paired hp
  · exact ⟨out, hp.left, hp.right, congrArg Prod.snd hp.related⟩
  · have hspans : ∀ {v : (GeneralPurpose × β) × Machine},
        Sheltered (GeneralPurpose.Housed lodges) out v → Sheltered lodges [] (v.1.2, v.2) :=
      fun ⟨_, _, wide, hq⟩ => ⟨_, .nil _, hq.backed⟩
    exact ⟨[], hspans hp.left, hspans hp.right, congrArg Prod.snd hp.related⟩

theorem Bears.sweep (h : g.Bears A) {s s' : (tier.Book × β) × Machine}
    {x : Act (tier.Book × β) Unit} (hp : (g.built tier).Pair n out s s') (hx : x ∈ tier.sweeps A) :
    Act.Alike True (fun _ => (g.built tier).Pair n []) x x s s' := by
  rcases h.kinds tier with ⟨A', _, hsweeps, hneeds, hover⟩ | ⟨lodges, rfl, hB, rfl | ⟨k, rfl⟩⟩
  · rw [hover] at hp ⊢
    rw [← hsweeps] at hx
    refine (Tier.sweep_alike hneeds hp hx).imp fun _ t t' ht ht' hpost => ?_
    exact ⟨Tier.stands_sweep hneeds.left hp.left hx ht,
      Tier.stands_sweep hneeds.right hp.right hx ht', hpost⟩
  · cases hx
  · obtain rfl := List.mem_singleton.1 hx
    have hgone : ∀ {v w : (GeneralPurpose × β) × Machine},
        Sheltered (GeneralPurpose.Housed lodges) out v →
        GeneralPurpose.destroy A v = .ok ((), w) → Sheltered (GeneralPurpose.Housed lodges) [] w :=
      fun ⟨_, _, _, hq⟩ hd => ⟨[], .nil [], [], hq.destroy hB hd⟩
    have halike := GeneralPurpose.destroy_blind hB.toBlind s s' hp.related
    refine halike.imp fun _ t t' ht ht' hpost => ?_
    exact ⟨hgone hp.left ht, hgone hp.right ht', hpost⟩

/-! ### Frames -/

theorem Pair.unframed (hp : (g.framed others m m').Pair n out s s') :
    ∃ blocks, g.Pair n blocks s s' := by
  cases g with
  | rough lodges =>
    have hrooms : ∀ {v : β × Machine}, Sheltered (Shared lodges others) out v →
        Sheltered lodges [] v := fun ⟨_, _, _, _, hh⟩ => ⟨_, .nil _, hh⟩
    exact ⟨[], hrooms hp.left, hrooms hp.right, hp.related⟩
  | firm holds holds' rel => exact ⟨out ++ others, hp.left.1, hp.right.1, hp.related⟩

theorem Pair.alone (hp : g.Pair n [] s s') (m m' : Memory) : (g.framed [] m m').Pair n [] s s' := by
  cases g with
  | rough lodges =>
    have hrooms : ∀ {v : β × Machine}, Sheltered lodges [] v → Sheltered (Shared lodges []) [] v :=
      fun ⟨rooms, _, hh⟩ => ⟨[], .nil [], rooms, .nil rooms, hh⟩
    exact ⟨hrooms hp.left, hrooms hp.right, hp.related⟩
  | firm holds holds' rel =>
    exact ⟨⟨hp.left, by simp [AgreesOn]⟩, ⟨hp.right, by simp [AgreesOn]⟩, hp.related⟩

/-- A client passes some of its blocks on. -/
theorem Bears.cede (h : g.Bears A) {blocks rest : List Slice}
    (hp : (g.framed others m m').Pair n [] s s') (hperm : others.Perm (blocks ++ rest)) :
    (g.framed rest s.2.memory s'.2.memory).Pair n blocks s s' := by
  cases h with
  | @rough lodges hB =>
    have hrooms : ∀ {v : β × Machine}, Sheltered (Shared lodges others) [] v →
        Sheltered (Shared lodges rest) blocks v := by
      rintro v ⟨rooms, _, own, hcov, hh⟩
      obtain ⟨own₁, own₂, hown₁, hown₂, hsplit⟩ := (hcov.perm hperm).split
      refine ⟨own₁, hown₁, rooms ++ own₂, hown₂.mono (List.sublist_append_right _ _).subperm, ?_⟩
      refine hB.perm ((hsplit.append_left rooms).trans ?_) hh
      rw [← List.append_assoc, ← List.append_assoc]
      exact List.perm_append_comm.append_right own₂
    exact ⟨hrooms hp.left, hrooms hp.right, hp.related⟩
  | firm hT hbook =>
    have hpaired := hT.paired_perm hperm ⟨hp.left.1, hp.right.1, hp.related⟩
    exact ⟨⟨hpaired.left, .refl _ _⟩, ⟨hpaired.right, .refl _ _⟩, hpaired.related⟩

end Ground
end Chain
end AllocChain
