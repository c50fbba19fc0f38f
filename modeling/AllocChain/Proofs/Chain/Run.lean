import Mathlib.Logic.Function.Basic
import AllocChain.Proofs.Chain.Tier

/-!
Chains of allocators: tiers on top of each other, and at the bottom an allocator that stands alone.
Every allocator of a chain has a client, who may go on using it when another allocator is put on it;
the client at depth `k` uses the one below the `k` topmost tiers. `Chain.Run` is what disciplined
clients can do together. Under `Chain.Stands` each tier stands on what it holds below, beside the
blocks of the client there, and after every run a chain stands so (`Chain.Run.stands`).
-/

namespace AllocChain

open Memory

namespace Chain

variable {L α β γ : Type}

/-- The bookkeeping of a chain, that of the topmost tier first. -/
@[reducible]
def Book (β : Type) : List Tier → Type
  | [] => β
  | tier :: tiers => tier.Book × Book β tiers

/-- The tiers over the allocator `B`, the topmost first. -/
def allocator (B : Allocator β) : (tiers : List Tier) → Allocator (Book β tiers)
  | [] => B
  | tier :: tiers => tier.allocator (allocator B tiers)

/-- The allocator below the topmost tiers, as many as the depth says. -/
def member (B : Allocator β) : (tiers : List Tier) → Nat → Allocator (Book β tiers)
  | tiers, 0 => allocator B tiers
  | [], _ + 1 => B
  | _ :: tiers, k + 1 => (member B tiers k).lift Act.below

@[simp]
theorem member_zero (B : Allocator β) (tiers : List Tier) :
    member B tiers 0 = allocator B tiers := by
  cases tiers <;> rfl

/-- What takes back all blocks of the topmost allocator. -/
def sweeps (B : Allocator β) (bottom : List (Act β Unit)) :
    (tiers : List Tier) → List (Act (Book β tiers) Unit)
  | [] => bottom
  | tier :: _ => tier.sweeps (allocator B _)

/-- The clients after a tier was put up on some blocks of the topmost one. -/
def raised (clients : Nat → List Slice) (ground : List Slice) : Nat → List Slice
  | 0 => []
  | 1 => (clients 0).diff ground
  | k + 2 => clients (k + 1)

/-- What disciplined clients of a chain can reach, each with the blocks that it holds: they put up
tiers, ask any allocator of the chain for something, and sweep the topmost one. -/
inductive Run (B : Allocator β) (bottom : List (Act β Unit)) (start : β × Machine) :
    (tiers : List Tier) → (Nat → List Slice) → Book β tiers × Machine → Prop
  | start : Run B bottom start [] (fun _ => []) start
  | raise {tiers clients s} (tier : Tier) : Run B bottom start tiers clients s →
      tier.ground ⊆ clients 0 →
      Run B bottom start (tier :: tiers) (raised clients tier.ground) ((tier.new, s.1), s.2)
  | deed {tiers clients s k d r t} : Run B bottom start tiers clients s → k ≤ tiers.length →
      d.Proper (clients k) → (member B tiers k).perform d s = .ok (r, t) →
      Run B bottom start tiers (Function.update clients k (d.leaves (clients k) r)) t
  | sweep {tiers clients s x t} : Run B bottom start tiers clients s →
      x ∈ sweeps B bottom tiers → x s = .ok ((), t) →
      Run B bottom start tiers (Function.update clients 0 []) t

/-- The blocks of `out` are outstanding at the top of the chain; each tier stands on what it holds
below, beside the blocks of the client there, and these have the bytes that they have in `m₀`. -/
def Stands (holds : List Slice → β × Machine → Prop) (m₀ : Memory) :
    (tiers : List Tier) → (Nat → List Slice) → List Slice → Book β tiers × Machine → Prop
  | [], _ => holds
  | tier :: tiers, clients =>
    tier.Stands (Framed (Stands holds m₀ tiers fun k => clients (k + 1)) (clients 1) m₀)

/-! ### Deeds below -/

theorem below_bind (x : Act β α) (f : α → Act β γ) :
    (Act.below (x >>= f) : Act (L × β) γ) = Act.below x >>= fun a => Act.below (f a) := by
  funext ⟨⟨l, b⟩, m⟩
  rw [Act.bind_apply, Act.below_apply, Act.below_apply, Act.bind_apply]
  cases x (b, m) with
  | error e => rfl
  | ok r => simp only [Except.bind, Except.map, Act.below_apply]

theorem perform_below (A : Allocator β) (d : Deed) :
    (A.lift Act.below : Allocator (L × β)).perform d = Act.below (A.perform d) := by
  cases d with
  | alloc | resize | write => rfl
  | free block =>
    exact (below_bind (A.free block) fun _ => (pure (.ok .null) : Act β Answer)).symm
  | allocZeroed size align =>
    refine Eq.trans ?_ (below_bind _ _).symm
    refine congrArg (Act.below (A.alloc size align) >>= ·) (funext fun answer => ?_)
    cases answer <;> rfl

/-! ### How a chain stands -/

variable {B : Allocator β} {holds : List Slice → β × Machine → Prop} {m₀ : Memory}
  {tiers : List Tier} {clients clients' : Nat → List Slice} {out ex : List Slice} {k : Nat}

theorem stands_congr (h : ∀ k, clients (k + 1) = clients' (k + 1)) :
    Stands holds m₀ tiers clients = Stands holds m₀ tiers clients' := by
  cases tiers with
  | nil => rfl
  | cons tier tiers => simp only [Stands, h]

theorem stands_update_zero {blocks : List Slice} :
    Stands holds m₀ tiers (Function.update clients 0 blocks) = Stands holds m₀ tiers clients :=
  stands_congr fun k => Function.update_of_ne (Nat.succ_ne_zero k) _ _

theorem update_succ {blocks : List Slice} :
    (fun j => Function.update clients (k + 1) blocks (j + 1)) =
      Function.update (fun j => clients (j + 1)) k blocks := by
  funext j
  by_cases hj : j = k
  · rw [hj, Function.update_self, Function.update_self]
  · rw [Function.update_of_ne hj, Function.update_of_ne (by omega)]

/-- A chain over an allocator that offers the whole interface offers it. -/
theorem service (hB : Service B holds) (m₀ : Memory) (tiers : List Tier)
    (clients : Nat → List Slice) :
    Service (allocator B tiers) (Stands holds m₀ tiers clients) := by
  induction tiers generalizing clients with
  | nil => exact hB
  | cons tier tiers ih => exact Tier.service (tier.needs ((ih _).framed _ _))

/-- The blocks of the clients below have the bytes that they have in `m₀`. -/
theorem Stands.agreesOn {s : Book β tiers × Machine} (h : Stands holds m₀ tiers clients out s) :
    ∀ k, k < tiers.length → AgreesOn (clients (k + 1)) m₀ s.2.memory := by
  induction tiers generalizing clients out with
  | nil => exact fun k hk => absurd hk (Nat.not_lt_zero k)
  | cons tier tiers ih =>
    obtain ⟨blocks, hbelow, hsame⟩ := Tier.backed h
    intro k hk
    cases k with
    | zero => exact hsame
    | succ k => exact ih hbelow k (Nat.lt_of_succ_lt_succ hk)

/-- No block at the top of a chain is null. -/
theorem Stands.nonnull (hB : Service B holds) {s : Book β tiers × Machine}
    (h : Stands (NonNull holds) m₀ tiers clients out s) : ∀ block ∈ out, block.addr ≠ 0 := by
  cases tiers with
  | nil => exact h.2
  | cons tier tiers =>
    exact fun _ hb => Tier.nonnull (tier.needs ((service hB.nonNull _ _ _).framed _ _)) h hb

/-- The memory to compare with may be that of now. -/
theorem Stands.anchor (hB : Service B holds) {s : Book β tiers × Machine}
    (h : Stands holds m₀ tiers clients out s) :
    Stands holds s.2.memory tiers clients out s := by
  induction tiers generalizing clients out with
  | nil => exact h
  | cons tier tiers ih =>
    have hS := (service hB m₀ tiers fun k => clients (k + 1)).framed (clients 1) m₀
    refine (Tier.quiet (u := (s.1.2, s.2)) (tier.needs hS) h fun blocks hbelow => ?_).1
    exact ⟨⟨ih hbelow.1, .refl _ _⟩, .refl _ _⟩

/-- What a deed of the client at depth `k` does to a chain that has the blocks of `ex` outstanding
at its top beside those of the topmost client. -/
structure Stepped (holds : List Slice → β × Machine → Prop) (tiers : List Tier)
    (clients : Nat → List Slice) (ex : List Slice) (k : Nat) (d : Deed) (s : Book β tiers × Machine)
    (r : Answer) (t : Book β tiers × Machine) : Prop where
  stands : Stands holds t.2.memory tiers (Function.update clients k (d.leaves (clients k) r))
    (Function.update clients k (d.leaves (clients k) r) 0 ++ ex) t
  apart : AgreesOn ex s.2.memory t.2.memory
  others : ∀ j ≤ tiers.length, j ≠ k → AgreesOn (clients j) s.2.memory t.2.memory
  refused : ∀ e, r = .error e → AgreesOn (clients k) s.2.memory t.2.memory

/-- A proper deed, at whatever depth, changes only the blocks of the client who did it. -/
theorem step (hB : Service B holds) {d : Deed} {r : Answer} {s t : Book β tiers × Machine}
    (hk : k ≤ tiers.length) (h : Stands holds s.2.memory tiers clients (clients 0 ++ ex) s)
    (hd : d.Proper (clients k)) (hp : (member B tiers k).perform d s = .ok (r, t)) :
    Stepped holds tiers clients ex k d s r t := by
  induction k generalizing tiers clients ex with
  | zero =>
    have hS := (service hB s.2.memory tiers clients).framed ex s.2.memory
    rw [member_zero] at hp
    obtain ⟨⟨hstands, hex⟩, hrefused⟩ := hS.step ⟨h, .refl _ _⟩ hd hp
    refine ⟨?_, hex, fun j hj hne => ?_, hrefused⟩
    · rw [stands_update_zero, Function.update_self]
      exact hstands.anchor hB
    · obtain ⟨j, rfl⟩ := Nat.exists_eq_succ_of_ne_zero hne
      exact hstands.agreesOn j hj
  | succ k ih =>
    cases tiers with
    | nil => exact absurd hk (Nat.not_succ_le_zero k)
    | cons tier tiers =>
      simp only [member, perform_below] at hp
      obtain ⟨u, hbelow, rfl⟩ := Act.below_ok.1 hp
      have hS := (service hB s.2.memory tiers fun k => clients (k + 1)).framed (clients 1)
        s.2.memory
      -- what the tier holds below is a frame around what the client there does
      have hstep : ∀ blocks, Framed (Stands holds s.2.memory tiers fun k => clients (k + 1))
          (clients 1) s.2.memory blocks (s.1.2, s.2) →
          Stepped holds tiers (fun k => clients (k + 1)) blocks k d (s.1.2, s.2) r u :=
        fun blocks hh => ih (Nat.le_of_succ_le_succ hk)
          ((service hB _ _ _).supply.perm List.perm_append_comm hh.1) hd hbelow
      have hframed : ∀ blocks, Framed (Stands holds s.2.memory tiers fun k => clients (k + 1))
          (clients 1) s.2.memory blocks (s.1.2, s.2) →
          Framed (Stands holds u.2.memory tiers (Function.update (fun j => clients (j + 1)) k
            (d.leaves (clients (k + 1)) r)))
            (Function.update (fun j => clients (j + 1)) k (d.leaves (clients (k + 1)) r) 0)
            u.2.memory blocks u :=
        fun blocks hh =>
          ⟨(service hB _ _ _).supply.perm List.perm_append_comm (hstep blocks hh).stands, .refl _ _⟩
      obtain ⟨blocks, hblocks⟩ := Tier.backed h
      have hsome := hstep blocks hblocks
      obtain ⟨hstands, hsame⟩ := Tier.quiet (tier.needs hS) h fun blocks hh =>
        ⟨hframed blocks hh, (hstep blocks hh).apart⟩
      refine ⟨?_, hsame.subset (List.subset_append_right _ _), fun j hj hne => ?_, hsome.refused⟩
      · rw [Function.update_of_ne (Nat.succ_ne_zero k).symm]
        have hfirst := congrFun (@update_succ clients k (d.leaves (clients (k + 1)) r)) 0
        simp only [Stands]
        rw [update_succ, hfirst]
        exact hstands
      · cases j with
        | zero => exact hsame.subset (List.subset_append_left _ _)
        | succ j => exact hsome.others j (Nat.le_of_succ_le_succ hj) fun heq => hne (by rw [heq])

/-! ### Runs -/

theorem ground_perm {tier : Tier} {blocks : List Slice} (hg : tier.ground ⊆ blocks) :
    blocks.Perm (tier.ground ++ blocks.diff tier.ground) := by
  cases tier with
  | fixed buffer =>
    simp only [Tier.ground, List.diff_cons, List.diff_nil]
    exact List.perm_cons_erase (hg (List.mem_singleton_self _))
  | _ => exact .refl _

/-- A tier that is put up stands on the chain. -/
theorem Stands.raise (hB : Service B holds) {tier : Tier} {s : Book β tiers × Machine}
    (h : Stands holds s.2.memory tiers clients (clients 0) s) (hg : tier.ground ⊆ clients 0) :
    Stands holds s.2.memory (tier :: tiers) (raised clients tier.ground) []
      ((tier.new, s.1), s.2) := by
  have hS := service hB s.2.memory tiers fun k => raised clients tier.ground (k + 1)
  refine Tier.stands_new (tier.needs (hS.framed _ _)) ⟨?_, .refl _ _⟩
  refine hS.supply.perm (ground_perm hg) ?_
  have hsame : Stands holds s.2.memory tiers (fun k => raised clients tier.ground (k + 1)) =
      Stands holds s.2.memory tiers clients := stands_congr fun k => rfl
  rw [hsame]
  exact h

variable {bottom : List (Act β Unit)} {start : β × Machine}

/-- After every run of disciplined clients the chain stands. -/
theorem Run.stands (hB : Service B holds) (hstart : holds [] start)
    (hsweep : ∀ x ∈ bottom, ∀ out s t, holds out s → x s = .ok ((), t) → holds [] t)
    {s : Book β tiers × Machine} (h : Run B bottom start tiers clients s) :
    Stands holds s.2.memory tiers clients (clients 0) s := by
  induction h with
  | start => exact hstart
  | raise tier _ hg ih => exact ih.raise hB hg
  | @deed tiers clients s k d r t _ hk hd hp ih =>
    rw [← List.append_nil (clients _)] at ih
    have hstands := (step hB hk ih hd hp).stands
    rwa [List.append_nil] at hstands
  | @sweep tiers clients s x t _ hx hswept ih =>
    rw [stands_update_zero, Function.update_self]
    have hswept : Stands holds s.2.memory tiers clients [] t := by
      cases tiers with
      | nil => exact hsweep x hx _ _ _ ih hswept
      | cons tier tiers =>
        exact Tier.stands_sweep (tier.needs ((service hB _ _ _).framed _ _)) ih hx hswept
    exact hswept.anchor hB

theorem Run.stands_fixed {base capacity : Nat} {m : Machine} {s : Book Region tiers × Machine}
    (hbound : base + capacity < wordLimit)
    (h : Run Fixed.allocator [Fixed.reset] (⟨base, capacity, 0⟩, m) tiers clients s) :
    Stands (Stacking.Holds Fixed.Kept) s.2.memory tiers clients (clients 0) s := by
  refine h.stands Fixed.service (Fixed.holds_nil hbound) fun x hx out s t hs hswept => ?_
  rw [List.mem_singleton.1 hx] at hswept
  exact Fixed.reset_holds hs hswept

/-! ### Played runs -/

/-- What clients of a chain do next: put up a tier, or do something at some depth. -/
inductive Move where
  | raise (tier : Tier)
  | deed (depth : Nat) (d : Deed)

/-- A chain with its clients. -/
structure Scene (β : Type) where
  tiers : List Tier
  clients : Nat → List Slice
  state : Book β tiers × Machine

/-- Makes one move if it is one of disciplined clients. -/
def Scene.move (B : Allocator β) (scene : Scene β) : Move → Option (Scene β)
  | .raise tier =>
    if tier.ground ⊆ scene.clients 0 then
      some ⟨tier :: scene.tiers, raised scene.clients tier.ground,
        ((tier.new, scene.state.1), scene.state.2)⟩
    else none
  | .deed k d =>
    if k ≤ scene.tiers.length ∧ d.Proper (scene.clients k) then
      match (member B scene.tiers k).perform d scene.state with
      | .ok (r, t) =>
        some ⟨scene.tiers, Function.update scene.clients k (d.leaves (scene.clients k) r), t⟩
      | .error _ => none
    else none

/-- Makes moves one after the other, as long as they are those of disciplined clients and end
without a fault. -/
def Scene.play (B : Allocator β) : List Move → Scene β → Option (Scene β)
  | [], scene => some scene
  | move :: moves, scene => (scene.move B move).bind (Scene.play B moves)

/-- How a scene changes by a move that was made. -/
inductive Scene.Moved (B : Allocator β) (scene : Scene β) : Move → Scene β → Prop
  | raise {tier : Tier} : tier.ground ⊆ scene.clients 0 →
      Scene.Moved B scene (.raise tier) ⟨tier :: scene.tiers, raised scene.clients tier.ground,
        ((tier.new, scene.state.1), scene.state.2)⟩
  | deed {k d r t} : k ≤ scene.tiers.length → d.Proper (scene.clients k) →
      (member B scene.tiers k).perform d scene.state = .ok (r, t) →
      Scene.Moved B scene (.deed k d)
        ⟨scene.tiers, Function.update scene.clients k (d.leaves (scene.clients k) r), t⟩

theorem Scene.moved {scene next : Scene β} {move : Move} (h : scene.move B move = some next) :
    scene.Moved B move next := by
  cases move with
  | raise tier =>
    simp only [Scene.move] at h
    split at h
    · rename_i hg
      cases h
      exact .raise hg
    · cases h
  | deed k d =>
    simp only [Scene.move] at h
    split at h
    · rename_i hproper
      split at h
      · rename_i r t hperform
        cases h
        exact .deed hproper.1 hproper.2 hperform
      · cases h
    · cases h

theorem Run.play {scene scene' : Scene β} {moves : List Move}
    (h : Run B bottom start scene.tiers scene.clients scene.state)
    (hp : scene.play B moves = some scene') :
    Run B bottom start scene'.tiers scene'.clients scene'.state := by
  induction moves generalizing scene with
  | nil =>
    cases hp
    exact h
  | cons move moves ih =>
    obtain ⟨next, hmove, hrest⟩ := Option.bind_eq_some_iff.1 hp
    refine ih ?_ hrest
    cases Scene.moved hmove with
    | @raise tier hg => exact h.raise tier hg
    | deed hk hd hperform => exact h.deed hk hd hperform

end Chain
end AllocChain
