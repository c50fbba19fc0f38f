import AllocChain.Proofs.Bump.Opening
import AllocChain.Proofs.Chain.Run
import AllocChain.Proofs.Scripted

/-!
Refused requests, through every chain. A tier that refuses has either asked nothing below or was
itself refused there, and it changes nothing of its own (`Tier.denied`). So all bookkeeping above
the bottom stays, and at the bottom at most one call was refused (`Chain.denied`). Over a fixed
allocator, which changes nothing when it refuses, a refusal leaves everything as it was
(`unchanged_of_refused`).
-/

namespace AllocChain

open Memory

variable {β γ : Type}

/-- What a refusal may have meant for an allocator: nothing was asked of it, or a request or the
resize of a block was, and that was refused. -/
inductive Denied (A : Allocator γ) (holds : List Slice → γ × Machine → Prop)
    (s t : γ × Machine) : Prop
  | unasked : t = s → Denied A holds s t
  | alloc {size align : Nat} {e : AllocError} : A.alloc size align s = .ok (.error e, t) →
      Denied A holds s t
  | resize {out : List Slice} {old : Slice} {size align : Nat} {e : AllocError} :
      holds (old :: out) s → old.isNull = false → size ≠ 0 →
      A.resize old size align s = .ok (.error e, t) → Denied A holds s t

namespace Denied

variable {A : Allocator γ} {holds : List Slice → γ × Machine → Prop} {s t : γ × Machine}

theorem of_framed {others : List Slice} {m₀ : Memory}
    (h : Denied A (Framed holds others m₀) s t) : Denied A holds s t := by
  cases h with
  | unasked hst => exact .unasked hst
  | alloc ha => exact .alloc ha
  | resize hh hn hs hr => exact .resize hh.1 hn hs hr

end Denied

/-- Whatever a client is refused, it was a request or the resize of one of its blocks. -/
theorem Service.denied {A : Allocator γ} {holds : List Slice → γ × Machine → Prop}
    (h : Service A holds) {out : List Slice} {s t : γ × Machine} {d : Deed} {e : AllocError}
    (hh : holds out s) (hd : d.Proper out) (hp : A.perform d s = .ok (.error e, t)) :
    Denied A holds s t := by
  cases d with
  | alloc size align => exact .alloc hp
  | allocZeroed size align =>
    rcases allocZeroed_ok hp with ⟨_, _, ha⟩ | ⟨_, _, hbad, _⟩
    · exact .alloc ha
    · cases hbad
  | resize old size align =>
    cases hn : old.isNull with
    | true =>
      have ha : A.alloc size align s = .ok (.error e, t) := by rwa [← h.resize_null hn]
      exact .alloc ha
    | false =>
      by_cases hs : size = 0
      · subst hs
        cases (h.resize_zero_ok hn hp).1
      · have hmem : old ∈ out := hd.resolve_left (by simp [hn])
        exact .resize (h.supply.perm (List.perm_cons_erase hmem) hh) hn hs hp
  | free block => cases (perform_free_ok hp).1
  | write addr byte => cases (perform_write_ok hp).1

/-! ### One tier -/

/-- The tier has kept its bookkeeping, and the allocator below has refused if it was asked. -/
def Passed (B : Allocator β) (holds : List Slice → β × Machine → Prop) {L : Type}
    (s t : (L × β) × Machine) : Prop :=
  t.1.1 = s.1.1 ∧ Denied B holds (s.1.2, s.2) (t.1.2, t.2)

section

variable {B : Allocator β} {holds : List Slice → β × Machine → Prop} {L : Type}
  {s t : (L × β) × Machine}

theorem Passed.unasked (h : t = s) : Passed B holds s t := by
  rw [h]
  exact ⟨rfl, .unasked rfl⟩

theorem Passed.alloc {size align : Nat} {e : AllocError} {u : β × Machine}
    (h : B.alloc size align (s.1.2, s.2) = .ok (.error e, u)) :
    Passed B holds s ((s.1.1, u.1), u.2) := ⟨rfl, .alloc h⟩

end

/-- A fixed allocator that refuses has changed nothing. -/
theorem Fixed.denied {holds : List Slice → Region × Machine → Prop} {s t : Region × Machine}
    (h : Denied Fixed.allocator holds s t) : t = s := by
  cases h with
  | unasked hst => exact hst
  | alloc ha => exact Fixed.alloc_refused ha
  | resize _ hn hs hr => exact Fixed.resize_refused hn hs hr

theorem Fixed.denied_seated {B : Allocator β} {holds : List Slice → β × Machine → Prop}
    {s t : (Region × β) × Machine}
    (h : Denied (Fixed.allocator.lift Act.above) (Fixed.Seated holds) s t) :
    Passed B holds s t := by
  cases h with
  | unasked hst => exact .unasked hst
  | alloc ha =>
    obtain ⟨u, hcall, rfl⟩ := Act.above_ok.1 ha
    exact .unasked (by rw [Fixed.alloc_refused hcall])
  | resize _ hn hs hr =>
    obtain ⟨u, hcall, rfl⟩ := Act.above_ok.1 hr
    exact .unasked (by rw [Fixed.resize_refused hn hs hcall])

/-- An arena has a new chunk or none. -/
theorem Arena.denied {B : Allocator β} {holds : List Slice → β × Machine → Prop}
    (hB : Supply B Slice.Answers holds) {s t : (Arena × β) × Machine} {out : List Slice}
    (hh : holds out (s.1.2, s.2)) {kept : List Slice → (Arena × β) × Machine → Prop}
    (h : Denied (Arena.allocator B) kept s t) : Passed B holds s t := by
  have halloc : ∀ {size align e}, Arena.alloc B size align s = .ok (.error e, t) →
      Passed B holds s t := by
    intro size align e ha
    rcases Arena.refused_behind hB hh ha with hst | ⟨_, _, u, hcall, rfl⟩
    · exact .unasked hst
    · exact .alloc hcall
  cases h with
  | unasked hst => exact .unasked hst
  | alloc ha => exact halloc ha
  | resize _ hn hs hr =>
    rcases resizeBy_ok hn hs hr with ⟨_, _, hst⟩ | ⟨_, hadj⟩
    · exact .unasked hst
    rcases Arena.adjust_ok hadj with ⟨_, _, _, hbad, _⟩ | hreloc
    · cases hbad
    · exact halloc (relocate_refused hreloc)

/-- A slab pool has a new slab or none. -/
theorem SlabPool.denied {B : Allocator β} {holds : List Slice → β × Machine → Prop}
    (hB : Supply B Slice.Answers holds) {s t : (SlabPool × β) × Machine} {out : List Slice}
    (hh : holds out (s.1.2, s.2))
    (h : Denied (SlabPool.allocator B) (SlabPool.Kept holds) s t) : Passed B holds s t := by
  have halloc : ∀ {size align e}, SlabPool.alloc B size align s = .ok (.error e, t) →
      Passed B holds s t := by
    intro size align e ha
    rcases SlabPool.refused_behind hB hh ha with hst | ⟨_, _, u, hcall, rfl⟩
    · exact .unasked hst
    · exact .alloc hcall
  cases h with
  | unasked hst => exact .unasked hst
  | alloc ha => exact halloc ha
  | resize _ hn hs hr =>
    rcases resizeBy_ok hn hs hr with ⟨_, _, hst⟩ | ⟨_, hadj⟩
    · exact .unasked hst
    rcases SlabPool.adjust_ok hadj with ⟨_, _, hbad, _⟩ | hreloc
    · cases hbad
    · exact halloc (relocate_refused hreloc)

theorem GeneralPurpose.denied {B : Allocator β} {holds : List Slice → β × Machine → Prop}
    (hB : Supply B Slice.Answers holds) {s t : (GeneralPurpose × β) × Machine} {out : List Slice}
    (hk : GeneralPurpose.Kept (NonNull holds) out s) (hs : s.1.1.Shaped)
    {kept : List Slice → (GeneralPurpose × β) × Machine → Prop}
    (h : Denied (GeneralPurpose.allocator B) kept s t) : Passed B holds s t := by
  have halloc : ∀ {size align e}, GeneralPurpose.alloc B size align s = .ok (.error e, t) →
      Passed B holds s t := by
    intro size align e ha
    rcases GeneralPurpose.refused_behind hs ha with hst | ⟨_, _, _, u, hcall, rfl⟩
    · exact .unasked hst
    · exact .alloc hcall
  cases h with
  | unasked hst => exact .unasked hst
  | alloc ha => exact halloc ha
  | resize _ hn hs hr =>
    rcases resizeBy_ok hn hs hr with ⟨_, _, hst⟩ | ⟨_, hadj⟩
    · exact .unasked hst
    cases adjust_ok hadj with
    | unknown => exact .unasked rfl
    | moved _ hreloc => exact halloc (relocate_refused hreloc)
    | refused howner hi hcall =>
      obtain ⟨rest, hall, _⟩ := held_large hi
      exact ⟨rfl, .resize (hB.perm hall hk.backed.1) (owner_large_isNull howner hi hn) hs hcall⟩

/-- A counting allocator passes on what it is asked. -/
theorem Counters.denied {B : Allocator β} {holds : List Slice → β × Machine → Prop}
    {s t : (Counters × β) × Machine}
    (h : Denied (Counters.allocator B) (Counters.Kept holds) s t) : Passed B holds s t := by
  cases h with
  | unasked hst => exact .unasked hst
  | alloc ha =>
    obtain ⟨u, ⟨_, _, hcall, rfl⟩ | ⟨_, _, hbad, _⟩⟩ := alloc_ok ha
    · exact .alloc hcall
    · cases hbad
  | resize hh hn hs hr =>
    obtain ⟨u, ⟨_, _, hcall, rfl⟩ | ⟨_, _, hbad, _⟩⟩ := resize_ok hn hs hr
    · exact ⟨rfl, .resize hh.backed.1 hn hs hcall⟩
    · cases hbad

/-- A tier that refuses keeps its bookkeeping, and was itself refused what it asked below. -/
theorem Tier.denied {B : Allocator β} {holds : List Slice → β × Machine → Prop}
    (hB : Service B holds) {tier : Tier} {out : List Slice} {s t : (tier.Book × β) × Machine}
    (h : tier.Stands holds out s) (hd : Denied (tier.allocator B) (tier.Stands holds) s t) :
    Passed B holds s t := by
  cases tier with
  | fixed buffer => exact Fixed.denied_seated hd
  | arena n =>
    obtain ⟨⟨_, _, hk⟩, _⟩ := h
    exact Arena.denied hB.supply hk.backed hd
  | slabs n => exact SlabPool.denied hB.supply h.backed.1 hd
  | general n => exact GeneralPurpose.denied hB.supply h.1 h.2 hd
  | counting => exact Counters.denied hd

/-! ### The whole chain -/

namespace Chain

/-- The bookkeeping of all tiers, without that of the bottom. -/
def layers : (tiers : List Tier) → Book β tiers → Book Unit tiers
  | [], _ => ()
  | _ :: tiers, b => (b.1, layers tiers b.2)

/-- The bookkeeping of the bottom. -/
def ground : (tiers : List Tier) → Book β tiers → β
  | [], b => b
  | _ :: tiers, b => ground tiers b.2

theorem book_ext {tiers : List Tier} {b b' : Book β tiers}
    (hl : layers tiers b = layers tiers b') (hg : ground tiers b = ground tiers b') : b = b' := by
  induction tiers with
  | nil => exact hg
  | cons tier tiers ih =>
    obtain ⟨hfirst, hrest⟩ := Prod.mk.inj hl
    exact Prod.ext hfirst (ih hrest hg)

variable {B : Allocator β} {holds : List Slice → β × Machine → Prop} {m₀ : Memory}
  {tiers : List Tier} {clients : Nat → List Slice} {out : List Slice}

/-- A chain that refuses keeps its bookkeeping, and at its bottom at most one call was refused. -/
theorem denied (hB : Service B holds) {s t : Book β tiers × Machine}
    (h : Stands holds m₀ tiers clients out s)
    (hd : Denied (allocator B tiers) (Stands holds m₀ tiers clients) s t) :
    layers tiers t.1 = layers tiers s.1 ∧
      Denied B holds (ground tiers s.1, s.2) (ground tiers t.1, t.2) := by
  induction tiers generalizing clients out with
  | nil => exact ⟨rfl, hd⟩
  | cons tier tiers ih =>
    have hS := (service hB m₀ tiers fun k => clients (k + 1)).framed (clients 1) m₀
    obtain ⟨hown, hbelow⟩ := Tier.denied hS h hd
    obtain ⟨blocks, hblocks⟩ := Tier.backed h
    obtain ⟨hlayers, hground⟩ := ih hblocks.1 hbelow.of_framed
    exact ⟨Prod.ext hown hlayers, hground⟩

/-- Whichever allocator of a chain refuses. -/
theorem refused (hB : Service B holds) {k : Nat} {d : Deed} {e : AllocError}
    {s t : Book β tiers × Machine} (hk : k ≤ tiers.length)
    (h : Stands holds m₀ tiers clients out s) (hout : clients 0 ⊆ out)
    (hd : d.Proper (clients k)) (hp : (member B tiers k).perform d s = .ok (.error e, t)) :
    layers tiers t.1 = layers tiers s.1 ∧
      Denied B holds (ground tiers s.1, s.2) (ground tiers t.1, t.2) := by
  induction k generalizing tiers clients out with
  | zero =>
    rw [member_zero] at hp
    exact denied hB h ((service hB _ _ _).denied h (hd.mono hout) hp)
  | succ k ih =>
    cases tiers with
    | nil => exact absurd hk (Nat.not_succ_le_zero k)
    | cons tier tiers =>
      simp only [member, perform_below] at hp
      obtain ⟨u, hbelow, rfl⟩ := Act.below_ok.1 hp
      obtain ⟨blocks, hblocks⟩ := Tier.backed h
      obtain ⟨hlayers, hground⟩ := ih (Nat.le_of_succ_le_succ hk) hblocks.1
        (List.subset_append_right _ _) hd hbelow
      exact ⟨Prod.ext rfl hlayers, hground⟩

end Chain

/-- A refused request changes nothing. Over a fixed allocator all is as it was before. Over any
other allocator that meets the contract, whenever it refuses, all tiers are as they were, every
client has the bytes that it had, and the bottom was asked at most once and refused. -/
theorem unchanged_of_refused :
    (∀ {base capacity : Nat} {m : Machine} {tiers : List Tier} {clients : Nat → List Slice}
      {s t : Chain.Book Region tiers × Machine} {k : Nat} {d : Deed} {e : AllocError},
      base + capacity < wordLimit →
      Chain.Run Fixed.allocator [Fixed.reset] (⟨base, capacity, 0⟩, m) tiers clients s →
      k ≤ tiers.length → d.Proper (clients k) →
      (Chain.member Fixed.allocator tiers k).perform d s = .ok (.error e, t) → t = s) ∧
    ∀ {β : Type} {B : Allocator β} {holds : List Slice → β × Machine → Prop} {start : β × Machine}
      {tiers : List Tier} {clients : Nat → List Slice} {s t : Chain.Book β tiers × Machine}
      {k : Nat} {d : Deed} {e : AllocError}, Service B holds → holds [] start →
      Chain.Run B [] start tiers clients s → k ≤ tiers.length → d.Proper (clients k) →
      (Chain.member B tiers k).perform d s = .ok (.error e, t) →
      Chain.layers tiers t.1 = Chain.layers tiers s.1 ∧
      (∀ j ≤ tiers.length, AgreesOn (clients j) s.2.memory t.2.memory) ∧
      Denied B holds (Chain.ground tiers s.1, s.2) (Chain.ground tiers t.1, t.2) := by
  constructor
  · intro base capacity m tiers clients s t k d e hbound hrun hk hd hp
    have hstands := hrun.stands_fixed hbound
    obtain ⟨hlayers, hground⟩ :=
      Chain.refused Fixed.service hk hstands (List.Subset.refl _) hd hp
    obtain ⟨hbook, hmachine⟩ := Prod.mk.inj (Fixed.denied hground)
    exact Prod.ext (Chain.book_ext hlayers hbook) hmachine
  · intro β B holds start tiers clients s t k d e hB hstart hrun hk hd hp
    have hstands := hrun.stands hB hstart (by simp)
    obtain ⟨hlayers, hground⟩ := Chain.refused hB hk hstands (List.Subset.refl _) hd hp
    rw [← List.append_nil (clients 0)] at hstands
    have hstepped := Chain.step hB hk hstands hd hp
    refine ⟨hlayers, fun j hj => ?_, hground⟩
    by_cases hjk : j = k
    · rw [hjk]
      exact hstepped.refused e rfl
    · exact hstepped.others j hj hjk

/-- Two chains of four tiers that refuse. In one a fixed allocator in a block of an arena has no
room left, in the other the heap turns its fourth request down. -/
theorem unchanged_of_two_refusals :
    (∃ (scene : Chain.Scene Region) (t : Chain.Book Region scene.tiers × Machine),
      Chain.Run Fixed.allocator [Fixed.reset] (⟨64, 1024, 0⟩, ⟨.zero, [], []⟩) scene.tiers
        scene.clients scene.state ∧
      scene.tiers.length = 4 ∧ scene.clients 0 = [⟨128, 20⟩] ∧ scene.clients 2 = [⟨104, 8⟩] ∧
      (Chain.member Fixed.allocator scene.tiers 0).perform (.resize ⟨128, 20⟩ 300 8) scene.state =
        .ok (.error (.outOfMemory 300 8), t) ∧ t = scene.state) ∧
    ∃ (scene : Chain.Scene ScriptedHeap) (t : Chain.Book ScriptedHeap scene.tiers × Machine),
      Chain.Run ScriptedHeap.allocator []
        (⟨0, 4096, 1024, [3], none, 0, 0, 0, 0, 0, 0⟩, ⟨.zero, [], []⟩) scene.tiers scene.clients
        scene.state ∧
      scene.tiers.length = 4 ∧ scene.clients 0 = [⟨4160, 20⟩] ∧ scene.clients 3 = [⟨4192, 40⟩] ∧
      (Chain.member ScriptedHeap.allocator scene.tiers 0).perform (.alloc 200 16) scene.state =
        .ok (.error (.outOfMemory 216 16), t) ∧
      Chain.layers scene.tiers t.1 = Chain.layers scene.tiers scene.state.1 ∧
      (∀ j ≤ scene.tiers.length,
        AgreesOn (scene.clients j) scene.state.2.memory t.2.memory) ∧
      Denied ScriptedHeap.allocator ScriptedHeap.Holds
        (Chain.ground scene.tiers scene.state.1, scene.state.2)
        (Chain.ground scene.tiers t.1, t.2) := by
  have hfixed : ((⟨[], fun _ => [], ⟨64, 1024, 0⟩, ⟨.zero, [], []⟩⟩ : Chain.Scene Region).play
      Fixed.allocator [.raise (.arena 256), .deed 0 (.alloc 200 16), .raise (.fixed ⟨96, 200⟩),
        .deed 0 (.alloc 8 8), .raise (.general 32), .raise .counting, .deed 0 (.alloc 20 8),
        .deed 3 (.alloc 16 8)]).map (fun scene => (scene.tiers.length, scene.clients 0,
          scene.clients 2, ((Chain.member Fixed.allocator scene.tiers 0).perform
            (.resize ⟨128, 20⟩ 300 8) scene.state).toOption.map (·.1))) =
      some (4, [⟨128, 20⟩], [⟨104, 8⟩], some (.error (.outOfMemory 300 8))) := by
    decide +kernel
  have hheap : ((⟨[], fun _ => [], ⟨0, 4096, 1024, [3], none, 0, 0, 0, 0, 0, 0⟩,
      ⟨.zero, [], []⟩⟩ : Chain.Scene ScriptedHeap).play
      ScriptedHeap.allocator [.raise (.slabs 64), .deed 1 (.alloc 24 8), .raise (.arena 64),
        .raise .counting, .raise (.general 32), .deed 0 (.alloc 20 8), .deed 3 (.alloc 40 8),
        .deed 4 (.write 4100 3)]).map (fun scene => (scene.tiers.length, scene.clients 0,
          scene.clients 3, ((Chain.member ScriptedHeap.allocator scene.tiers 0).perform
            (.alloc 200 16) scene.state).toOption.map (·.1))) =
      some (4, [⟨4160, 20⟩], [⟨4192, 40⟩], some (.error (.outOfMemory 216 16))) := by
    decide +kernel
  constructor
  · obtain ⟨scene, hplay, hends⟩ := Option.map_eq_some_iff.1 hfixed
    simp only [Prod.mk.injEq] at hends
    obtain ⟨htiers, hclients, hothers, hlast⟩ := hends
    obtain ⟨⟨r, t⟩, hout, rfl⟩ := Option.map_eq_some_iff.1 hlast
    have hp := Act.ok_of_toOption hout
    have hrun : Chain.Run Fixed.allocator [Fixed.reset] _ scene.tiers scene.clients scene.state :=
      Chain.Run.start.play hplay
    have hd : (Deed.resize ⟨128, 20⟩ 300 8).Proper (scene.clients 0) := by
      rw [hclients]
      decide
    exact ⟨scene, t, hrun, htiers, hclients, hothers, hp,
      unchanged_of_refused.1 (by decide) hrun (Nat.zero_le _) hd hp⟩
  · obtain ⟨scene, hplay, hends⟩ := Option.map_eq_some_iff.1 hheap
    simp only [Prod.mk.injEq] at hends
    obtain ⟨htiers, hclients, hothers, hlast⟩ := hends
    obtain ⟨⟨r, t⟩, hout, rfl⟩ := Option.map_eq_some_iff.1 hlast
    have hp := Act.ok_of_toOption hout
    have hrun : Chain.Run ScriptedHeap.allocator [] _ scene.tiers scene.clients scene.state :=
      Chain.Run.start.play hplay
    have hd : (Deed.alloc 200 16).Proper (scene.clients 0) := trivial
    have hstart : ScriptedHeap.Holds []
        (⟨0, 4096, 1024, [3], none, 0, 0, 0, 0, 0, 0⟩, ⟨.zero, [], []⟩) :=
      .nil ⟨rfl, rfl, by decide, by decide⟩ (Nat.zero_le _)
    exact ⟨scene, t, hrun, htiers, hclients, hothers, hp,
      unchanged_of_refused.2 ScriptedHeap.service hstart hrun (Nat.zero_le _) hd hp⟩

end AllocChain
