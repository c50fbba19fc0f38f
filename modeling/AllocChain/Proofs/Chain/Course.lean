import AllocChain.Proofs.Chain.Twins

/-!
Runs of chains with their calls counted, and what takes blocks back in two runs. Over a bottom that
is its own twin (`Chain.Footing`), sweeping the topmost allocators leaves two chains alike
(`Chain.Footing.swept`), and whatever clients can reach is alike to itself (`Chain.Course.beside`).
-/

namespace AllocChain

open Memory

namespace Chain

variable {β : Type}

/-- An allocator and all that takes its blocks back, in two runs. -/
structure Footing (T : Terms) (B : Allocator β) (bottom : List (Act β Unit))
    (holds holds' : List Slice → β × Machine → Prop)
    (rel : Nat → List Slice → β × Machine → β × Machine → Prop) : Prop
    extends Twins T B holds holds' rel where
  sweep {x} : x ∈ bottom → ∀ {n out s s'}, Paired holds holds' (rel n) out s s' →
    Act.Alike T.may (fun _ => Paired holds holds' (rel n) []) x x s s'

/-- What disciplined clients of a chain can reach with `n` calls that ask for what is fair. -/
inductive Course (B : Allocator β) (bottom : List (Act β Unit)) (fair : Nat → Nat → Prop)
    (start : β × Machine) :
    Nat → (tiers : List Tier) → (Nat → List Slice) → Book β tiers × Machine → Prop
  | start : Course B bottom fair start 0 [] (fun _ => []) start
  | raise {n tiers clients s} (tier : Tier) : Course B bottom fair start n tiers clients s →
      tier.ground ⊆ clients 0 →
      Course B bottom fair start n (tier :: tiers) (raised clients tier.ground)
        ((tier.new, s.1), s.2)
  | deed {n tiers clients s k d r t} : Course B bottom fair start n tiers clients s →
      k ≤ tiers.length → d.Proper (clients k) → Fair fair tiers k d →
      (member B tiers k).perform d s = .ok (r, t) →
      Course B bottom fair start (n + d.calls) tiers
        (Function.update clients k (d.leaves (clients k) r)) t
  | sweep {n tiers clients s x t} : Course B bottom fair start n tiers clients s →
      x ∈ sweeps B bottom tiers → x s = .ok ((), t) →
      Course B bottom fair start n tiers (Function.update clients 0 []) t

variable {T : Terms} {B : Allocator β} {bottom : List (Act β Unit)}
  {holds holds' : List Slice → β × Machine → Prop}
  {rel : Nat → List Slice → β × Machine → β × Machine → Prop} {start : β × Machine}
  {j n limit : Nat} {tiers : List Tier} {clients : Nat → List Slice} {fair : Nat → Nat → Prop}

/-- What is played takes as many calls as there are moves, or fewer. -/
theorem Course.play {scene scene' : Scene β} {moves : List Move}
    (h : Course B bottom fair start n scene.tiers scene.clients scene.state)
    (hfair : ∀ k d, Move.deed k d ∈ moves → d.Asks fair)
    (hp : scene.play B moves = some scene') :
    ∃ n' ≤ n + moves.length,
      Course B bottom fair start n' scene'.tiers scene'.clients scene'.state := by
  induction moves generalizing scene n with
  | nil =>
    cases hp
    exact ⟨n, Nat.le_refl _, h⟩
  | cons move moves ih =>
    obtain ⟨next, hmove, hrest⟩ := Option.bind_eq_some_iff.1 hp
    have hlater : ∀ k d, Move.deed k d ∈ moves → d.Asks fair :=
      fun k d hmem => hfair k d (List.mem_cons_of_mem _ hmem)
    cases Scene.moved hmove with
    | @raise tier hg =>
      obtain ⟨n', hle, hcourse⟩ := ih (h.raise tier hg) hlater hrest
      exact ⟨n', Nat.le_trans hle (Nat.le_succ _), hcourse⟩
    | @deed k d r t hk hd hperform =>
      have hasks : d.Asks fair := hfair k d List.mem_cons_self
      obtain ⟨n', hle, hcourse⟩ := ih (h.deed hk hd (.inl hasks) hperform) hlater hrest
      have hcalls := d.calls_le
      refine ⟨n', ?_, hcourse⟩
      rw [List.length_cons]
      omega

/-- Two chains that are alike, with the same clients. -/
abbrev Abreast (T : Terms) (holds holds' : List Slice → β × Machine → Prop)
    (rel : Nat → List Slice → β × Machine → β × Machine → Prop) (j : Nat) (tiers : List Tier)
    (clients : Nat → List Slice) (s s' : Book β tiers × Machine) : Prop :=
  Paired (Stands holds s.2.memory tiers clients) (Stands holds' s'.2.memory tiers clients)
    (Twin T rel tiers clients j) (clients 0) s s'

/-- Sweeping chains that are alike leaves such chains. -/
theorem Footing.swept (hF : Footing T B bottom holds holds' rel)
    {s s' : Book β tiers × Machine} {x : Act (Book β tiers) Unit}
    (h : Abreast T holds holds' rel j tiers clients s s') (hx : x ∈ sweeps B bottom tiers) :
    Act.Alike T.may
      (fun _ => Abreast T holds holds' rel j tiers (Function.update clients 0 [])) x x s s' := by
  have hcleared : ∀ {t t' : Book β tiers × Machine},
      Stands holds s.2.memory tiers clients [] t → Stands holds' s'.2.memory tiers clients [] t' →
      Twin T rel tiers clients j [] t t' →
      Abreast T holds holds' rel j tiers (Function.update clients 0 []) t t' := by
    intro t t' hl hr htwin
    rw [Abreast, stands_update_zero, stands_update_zero, twin_update_zero, Function.update_self]
    exact ⟨hl.anchor hF.service, hr.anchor hF.service', htwin⟩
  cases tiers with
  | nil =>
    refine (hF.sweep hx h).imp fun _ _ _ _ _ hpost => ?_
    exact hcleared hpost.left hpost.right hpost.related
  | cons tier tiers =>
    refine (sweep_alike hF.toTwins (fun x hx => ?_) h hx).imp fun _ t t' ht ht' hpost => ?_
    · intro n out u u' hp
      exact (hF.sweep hx hp).imp fun _ _ _ _ _ hpost => hpost.related
    · refine hcleared (Tier.stands_sweep (tier.needs ?_) h.left hx ht)
        (Tier.stands_sweep (tier.needs ?_) h.right hx ht') hpost
      · exact (service hF.service _ _ _).framed _ _
      · exact (service hF.service' _ _ _).framed _ _

theorem Course.beside (hF : Footing T B bottom holds holds rel) (hcount : T.may ∨ limit < wordLimit)
    (hstart : holds [] start) (hrel : rel limit [] start start) {s : Book β tiers × Machine}
    (h : Course B bottom T.fair start n tiers clients s) (hn : n + j = limit) :
    Abreast T holds holds rel j tiers clients s s := by
  induction h generalizing j with
  | start =>
    obtain rfl : j = limit := by omega
    exact ⟨hstart, hstart, hrel⟩
  | @raise n tiers clients s tier _ hg ih =>
    exact raise_paired hF.toTwins (hcount.imp_right fun hlimit => by omega) (ih hn) hg
  | @deed n tiers clients s k d r t _ hk hd hfair hp ih =>
    have habreast := ih (j := j + d.calls) (by omega)
    have hstep := step_alike hF.toTwins hk (.refl d) (fun _ => rfl) habreast hd hfair
    exact (hstep.of_both (.refl _) hp hp).2.2
  | @sweep n tiers clients s x t _ hx hs ih =>
    exact ((hF.swept (ih hn) hx).of_both (.refl _) hs hs).2.2

end Chain
end AllocChain
