import AllocChain.Proofs.Chain.Crown
import AllocChain.Proofs.Chain.Footing

/-!
Allocators do not look at what their clients write. In `Chain.Joint` the disciplined clients of two
chains make the same calls, while each writes its own bytes into its blocks, over memories that need
not be the same to begin with; nothing is said about the answers. Over fixed allocators, over
scripted heaps whatever they do to the blocks that they hand out, and over all that is put up on
those (`Chain.Basis`), the answers are the same all the same, and so is everything but the memory
(`indistinct_of_other_bytes`).
-/

namespace AllocChain

open Memory

namespace Chain

variable {β : Type}

/-- One of two runs: the blocks of the clients, the answers so far, and the state. -/
structure Side (β : Type) (tiers : List Tier) where
  clients : Nat → List Slice
  answers : List Answer
  state : Book β tiers × Machine

namespace Side

variable {tiers : List Tier}

/-- A tier is put up. -/
def raise (v : Side β tiers) (tier : Tier) : Side β (tier :: tiers) :=
  ⟨raised v.clients tier.ground, v.answers, ((tier.new, v.state.1), v.state.2)⟩

/-- The client at depth `k` got an answer. -/
def after (v : Side β tiers) (k : Nat) (d : Deed) (r : Answer) (t : Book β tiers × Machine) :
    Side β tiers :=
  ⟨Function.update v.clients k (d.leaves (v.clients k) r), v.answers ++ [r], t⟩

/-- All blocks of the topmost client were taken back. -/
def swept (v : Side β tiers) (t : Book β tiers × Machine) : Side β tiers :=
  ⟨Function.update v.clients 0 [], v.answers, t⟩

end Side

/-- What the disciplined clients of two chains can reach with the same calls. The bytes that they
write may differ, and so may whatever they are answered. -/
inductive Joint (B : Allocator β) (bottom : List (Act β Unit)) (start start' : β × Machine) :
    (tiers : List Tier) → Side β tiers → Side β tiers → Prop
  | start : Joint B bottom start start' [] ⟨fun _ => [], [], start⟩ ⟨fun _ => [], [], start'⟩
  | raise {tiers v v'} (tier : Tier) : Joint B bottom start start' tiers v v' →
      tier.ground ⊆ v.clients 0 → tier.ground ⊆ v'.clients 0 →
      Joint B bottom start start' (tier :: tiers) (v.raise tier) (v'.raise tier)
  | deed {tiers v v' k d d' r r' t t'} : Joint B bottom start start' tiers v v' →
      k ≤ tiers.length → d.Like d' → d.Proper (v.clients k) → d'.Proper (v'.clients k) →
      (member B tiers k).perform d v.state = .ok (r, t) →
      (member B tiers k).perform d' v'.state = .ok (r', t') →
      Joint B bottom start start' tiers (v.after k d r t) (v'.after k d' r' t')
  | sweep {tiers v v' x t t'} : Joint B bottom start start' tiers v v' →
      x ∈ sweeps B bottom tiers → x v.state = .ok ((), t) → x v'.state = .ok ((), t') →
      Joint B bottom start start' tiers (v.swept t) (v'.swept t')

/-- Nobody can tell one of two runs from the other. The clients got the same answers and hold the
same blocks, the bookkeeping and what was reported and asked behind are the same, and so will they
be whatever is done next: it ends with the same answer in both runs, or breaks off in the same way.
-/
structure Indistinct (B : Allocator β) (bottom : List (Act β Unit)) (tiers : List Tier)
    (v v' : Side β tiers) : Prop where
  clients : v'.clients = v.clients
  answers : v'.answers = v.answers
  book : v'.state.1 = v.state.1
  log : v.state.2.SameLog v'.state.2
  deed : ∀ k ≤ tiers.length, ∀ d d' : Deed, d.Like d' → d.Proper (v.clients k) →
    Act.Outcome True (fun _ t t' => t'.1 = t.1) ((member B tiers k).perform d v.state)
      ((member B tiers k).perform d' v'.state)
  sweep : ∀ x ∈ sweeps B bottom tiers,
    Act.Outcome True (fun _ t t' => t'.1 = t.1) (x v.state) (x v'.state)

/-! ### Played runs -/

/-- Two chains of the same tiers. -/
structure Duet (β : Type) where
  tiers : List Tier
  left : Side β tiers
  right : Side β tiers

/-- The same deed, but for the byte that is written. -/
def replaced (other : UInt8 → UInt8) : Deed → Deed
  | .write addr byte => .write addr (other byte)
  | d => d

theorem like_replaced (other : UInt8 → UInt8) (d : Deed) : d.Like (replaced other d) := by
  cases d with
  | write addr byte => exact .write addr byte (other byte)
  | _ => exact .refl _

/-- Makes one move in both runs, if it is one of disciplined clients; the second run writes other
bytes. -/
def Duet.move (B : Allocator β) (other : UInt8 → UInt8) (duet : Duet β) : Move → Option (Duet β)
  | .raise tier =>
    if tier.ground ⊆ duet.left.clients 0 ∧ tier.ground ⊆ duet.right.clients 0 then
      some ⟨tier :: duet.tiers, duet.left.raise tier, duet.right.raise tier⟩
    else none
  | .deed k d =>
    if k ≤ duet.tiers.length ∧ d.Proper (duet.left.clients k) ∧
        (replaced other d).Proper (duet.right.clients k) then
      match (member B duet.tiers k).perform d duet.left.state,
        (member B duet.tiers k).perform (replaced other d) duet.right.state with
      | .ok (r, t), .ok (r', t') =>
        some ⟨duet.tiers, duet.left.after k d r t, duet.right.after k (replaced other d) r' t'⟩
      | _, _ => none
    else none

theorem Joint.play {B : Allocator β} {bottom : List (Act β Unit)} {start start' : β × Machine}
    {duet duet' : Duet β} {other : UInt8 → UInt8} {moves : List Move}
    (h : Joint B bottom start start' duet.tiers duet.left duet.right)
    (hp : moves.foldlM (Duet.move B other) duet = some duet') :
    Joint B bottom start start' duet'.tiers duet'.left duet'.right := by
  induction moves generalizing duet with
  | nil =>
    cases hp
    exact h
  | cons move moves ih =>
    obtain ⟨next, hmove, hrest⟩ := Option.bind_eq_some_iff.1 hp
    refine ih ?_ hrest
    cases move with
    | raise tier =>
      simp only [Duet.move] at hmove
      split at hmove
      · rename_i hground
        cases hmove
        exact h.raise tier hground.1 hground.2
      · cases hmove
    | deed k d =>
      simp only [Duet.move] at hmove
      split at hmove
      · rename_i hproper
        split at hmove
        · rename_i hleft hright
          cases hmove
          exact h.deed hproper.1 (like_replaced other d) hproper.2.1 hproper.2.2 hleft hright
        · cases hmove
      · cases hmove

/-! ### Runs side by side -/

/-- An allocator without blocks that chains may stand on: a fixed one, or a scripted heap, with
tiers and watches on it that nobody else uses. The heap may refuse requests, and misplace or shorten
blocks. -/
inductive Basis : {β : Type} → Allocator β → List (Act β Unit) → β → Prop
  | fixed {base capacity} : base + capacity < wordLimit →
      Basis Fixed.allocator [Fixed.reset] ⟨base, capacity, 0⟩
  | heap {heap : ScriptedHeap} : 0 < heap.base → heap.base + heap.limit < wordLimit →
      heap.next ≤ heap.limit → Basis ScriptedHeap.allocator [] heap
  | built {β : Type} {B : Allocator β} {bottom b} (tier : Tier) : tier.ground = [] →
      Basis B bottom b → Basis (tier.allocator B) (tier.sweeps B) (tier.new, b)
  | watched {β : Type} {B : Allocator β} {bottom b} : Basis B bottom b → Basis B.watched [] ([], b)

variable {B : Allocator β} {bottom : List (Act β Unit)} {b : β} {start start' : β × Machine}
  {g : Ground β} {tiers : List Tier} {v v' : Side β tiers}

/-- The ground bears the allocator, and what takes its blocks back. -/
structure Rests (B : Allocator β) (bottom : List (Act β Unit)) (g : Ground β) : Prop where
  bears : g.Bears B
  sweep : ∀ x ∈ bottom, ∀ n out s s', g.Pair n out s s' →
    Act.Alike True (fun _ => g.Pair n []) x x s s'

/-- A basis is alike to itself over all memories. -/
theorem Basis.ground (h : Basis B bottom b) :
    ∃ g, Rests B bottom g ∧ ∀ n m m', g.Pair n [] (b, m) (b, m') := by
  induction h with
  | fixed hbound =>
    have hF := Fixed.footing .blind
    refine ⟨_, ⟨.firm hF.toTwins fun hrel => hrel.region, ?_⟩, fun n m m' => ?_⟩
    · exact fun x hx n out s s' hp => hF.sweep (n := n) hx hp
    exact Fixed.paired_nil hbound (.inl trivial) False.elim
  | heap hbase hlimit hnext =>
    refine ⟨_, ⟨.rough ScriptedHeap.spacious, fun x hx => by cases hx⟩, fun n m m' => ?_⟩
    have hcut : ∀ m : Machine, Sheltered (fun rooms h => ScriptedHeap.Cut rooms h ∧ 0 < h.base) []
        (_, m) := fun m => ⟨[], .nil [], ⟨hlimit, hnext, by simp, .nil⟩, hbase⟩
    exact ⟨hcut m, hcut m', rfl⟩
  | built tier hground _ ih =>
    obtain ⟨g, hg, hstart⟩ := ih
    refine ⟨g.built tier, ⟨hg.bears.built tier, fun x hx n out s s' hp => hg.bears.sweep hp hx⟩,
      fun n m m' => ?_⟩
    have hbelow := hstart n m m'
    rw [← hground] at hbelow
    exact hg.bears.raise hbelow
  | watched _ ih =>
    obtain ⟨g, hg, hstart⟩ := ih
    refine ⟨g.watched, ⟨hg.bears.watched, fun x hx => by cases hx⟩, fun n m m' => ?_⟩
    exact (hstart n m m').watched

/-- Two runs with the same calls got the same answers, and have the same blocks and books. -/
structure Beside (g : Ground β) (tiers : List Tier) (v v' : Side β tiers) : Prop where
  clients : v'.clients = v.clients
  answers : v'.answers = v.answers
  log : v.state.2.SameLog v'.state.2
  pair : ∀ n, (g.crown v.state.2.memory v'.state.2.memory tiers v.clients).Pair n []
    v.state v'.state

theorem Joint.beside (hg : Rests B bottom g) (hlog : start.2.SameLog start'.2)
    (hstart : ∀ n, g.Pair n [] start start') (h : Joint B bottom start start' tiers v v') :
    Beside g tiers v v' := by
  induction h with
  | start => exact ⟨rfl, rfl, hlog, fun n => (hstart n).alone _ _⟩
  | @raise tiers v v' tier _ hground _ ih =>
    refine ⟨?_, ih.answers, ih.log, fun n => hg.bears.raised (ih.pair n) hground⟩
    simp only [Side.raise, ih.clients]
  | @deed tiers v v' k d d' r r' t t' _ hk hlike hd _ hp hp' ih =>
    have halike := hg.bears.member hk hlike hd (ih.pair (0 + d.calls))
    obtain ⟨rfl, hlog', hpass⟩ := halike.of_both ih.log hp hp'
    refine ⟨?_, ?_, hlog', fun n => hpass.pair (ih.pair (n + d.calls))⟩
    · simp only [Side.after, ih.clients, hlike.leaves]
    · simp only [Side.after, ih.answers]
  | @sweep tiers v v' x t t' _ hx hs hs' ih =>
    have hswept := fun n => (hg.bears.swept hg.sweep (ih.pair n) hx).of_both ih.log hs hs'
    refine ⟨?_, ih.answers, (hswept 0).2.1, fun n => (hswept n).2.2⟩
    simp only [Side.swept, ih.clients]

theorem Beside.indistinct (hg : Rests B bottom g) (h : Beside g tiers v v') :
    Indistinct B bottom tiers v v' where
  clients := h.clients
  answers := h.answers
  book := (hg.bears.crown _ _ _ _).book (h.pair 0).related
  log := h.log
  deed k hk d d' hlike hd := by
    have hbefore := h.pair (0 + d.calls)
    refine (hg.bears.member hk hlike hd hbefore).imp (fun r t t' _ _ hpass => ?_) h.log
    exact (hg.bears.crown _ _ _ _).book (hpass.pair hbefore).related
  sweep x hx := by
    refine (hg.bears.swept hg.sweep (h.pair 0) hx).imp (fun _ t t' _ _ hpost => ?_) h.log
    exact (hg.bears.crown _ _ _ _).book hpost.related

/-- Over a basis, whatever the memories hold and the clients write, two runs with the same calls
cannot be told apart. -/
theorem Joint.indistinct {m m' : Machine} (hbasis : Basis B bottom b) (hlog : m.SameLog m')
    (h : Joint B bottom (b, m) (b, m') tiers v v') : Indistinct B bottom tiers v v' := by
  obtain ⟨g, hg, hstart⟩ := hbasis.ground
  exact (h.beside hg hlog fun n => hstart n m m').indistinct hg

end Chain

/-- What is allocated does not depend on the bytes in the memory. Over a fixed allocator or a
scripted heap, with any tiers and watches, two runs with the same calls, whose clients write what
they like into their blocks, get the same answers, keep the same books and make the same calls
behind. So do a run on a fixed allocator that was reset and one on a new allocator over the same
bytes, or any others. -/
theorem indistinct_of_other_bytes :
    (∀ {β : Type} {B : Allocator β} {bottom : List (Act β Unit)} {b : β} {m m' : Machine}
      {tiers : List Tier} {v v' : Chain.Side β tiers}, Chain.Basis B bottom b → m.SameLog m' →
      Chain.Joint B bottom (b, m) (b, m') tiers v v' → Chain.Indistinct B bottom tiers v v') ∧
    ∀ {base capacity used : Nat} (m : Machine) (memory : Memory), base + capacity < wordLimit →
      ∃ t, Fixed.reset (⟨base, capacity, used⟩, m) = .ok ((), t) ∧
        ∀ {tiers : List Tier} {v v' : Chain.Side Region tiers},
          Chain.Joint Fixed.allocator [Fixed.reset] t
            (⟨base, capacity, 0⟩, { t.2 with memory }) tiers v v' →
          Chain.Indistinct Fixed.allocator [Fixed.reset] tiers v v' := by
  refine ⟨fun hbasis hlog h => h.indistinct hbasis hlog, ?_⟩
  intro base capacity _ m memory hbound
  refine ⟨_, rfl, fun {tiers v v'} h => ?_⟩
  have hfresh : Chain.Joint Fixed.allocator [Fixed.reset] (⟨base, capacity, 0⟩, m)
      (⟨base, capacity, 0⟩, { m with memory }) tiers v v' := h
  have hlog : m.SameLog { m with memory } := ⟨rfl, rfl⟩
  exact hfresh.indistinct (.fixed hbound) hlog

/-- Two clients over a fixed allocator free and resize blocks between which they have written; two
over a heap that hands out forty bytes at most write beyond these; and one uses a fixed allocator
that was reset. In the second run all write other bytes, into a memory that had others before. -/
theorem indistinct_of_three_scenes :
    (∃ duet : Chain.Duet Region, duet.tiers.length = 2 ∧
      duet.left.answers.getLast? = some (.ok ⟨152, 8⟩) ∧
      duet.left.state.2.memory.byte 128 ≠ duet.right.state.2.memory.byte 128 ∧
      Chain.Joint Fixed.allocator [Fixed.reset] (⟨64, 4096, 0⟩, ⟨.zero, [], []⟩)
        (⟨64, 4096, 0⟩, ⟨⟨fun _ => 255⟩, [], []⟩) duet.tiers duet.left duet.right ∧
      Chain.Indistinct Fixed.allocator [Fixed.reset] duet.tiers duet.left duet.right) ∧
    (∃ duet : Chain.Duet ScriptedHeap, duet.tiers.length = 2 ∧
      duet.left.answers.getLast? = some (.ok ⟨4268, 4⟩) ∧
      duet.left.state.2.memory.byte 4244 ≠ duet.right.state.2.memory.byte 4244 ∧
      Chain.Joint ScriptedHeap.allocator []
        (⟨0, 4096, 1024, [3], some 40, 0, 4, 0, 0, 0, 0⟩, ⟨.zero, [], []⟩)
        (⟨0, 4096, 1024, [3], some 40, 0, 4, 0, 0, 0, 0⟩, ⟨⟨fun _ => 255⟩, [], []⟩)
        duet.tiers duet.left duet.right ∧
      Chain.Indistinct ScriptedHeap.allocator [] duet.tiers duet.left duet.right) ∧
    ∃ t, ∃ duet : Chain.Duet Region,
      Fixed.reset (⟨64, 4096, 1000⟩, ⟨⟨fun _ => 255⟩, [], []⟩) = .ok ((), t) ∧
      duet.left.answers = [.ok ⟨72, 24⟩, .ok ⟨104, 8⟩, .ok .null] ∧
      Chain.Joint Fixed.allocator [Fixed.reset] t
        (⟨64, 4096, 0⟩, { t.2 with memory := .zero }) duet.tiers duet.left duet.right ∧
      Chain.Indistinct Fixed.allocator [Fixed.reset] duet.tiers duet.left duet.right := by
  have hlog : Machine.SameLog ⟨.zero, [], []⟩ ⟨⟨fun _ => 255⟩, [], []⟩ := ⟨rfl, rfl⟩
  refine ⟨?_, ?_, ?_⟩
  · have hplayed : (([.raise (.arena 256), .deed 0 (.alloc 200 16), .raise (.fixed ⟨96, 200⟩),
        .deed 0 (.alloc 8 8), .deed 0 (.alloc 16 16), .deed 0 (.alloc 24 8), .deed 0 (.write 104 7),
        .deed 0 (.write 128 7), .deed 0 (.free ⟨104, 8⟩), .deed 0 (.resize ⟨152, 24⟩ 80 8),
        .deed 1 (.alloc 300 8), .deed 0 (.free ⟨152, 80⟩), .deed 0 (.alloc 8 8)].foldlM
          (Chain.Duet.move Fixed.allocator (· + 1))
          (⟨[], ⟨fun _ => [], [], ⟨64, 4096, 0⟩, ⟨.zero, [], []⟩⟩,
            ⟨fun _ => [], [], ⟨64, 4096, 0⟩, ⟨⟨fun _ => 255⟩, [], []⟩⟩⟩ : Chain.Duet Region)).map
          fun duet => (duet.tiers.length, duet.left.answers.getLast?,
            duet.left.state.2.memory.byte 128 == duet.right.state.2.memory.byte 128)) =
        some (2, some (.ok ⟨152, 8⟩), false) := by
      decide +kernel
    obtain ⟨duet, hplay, hends⟩ := Option.map_eq_some_iff.1 hplayed
    obtain ⟨htiers, hlast⟩ := Prod.mk.inj hends
    obtain ⟨hanswer, hbyte⟩ := Prod.mk.inj hlast
    have hjoint : Chain.Joint Fixed.allocator [Fixed.reset] _ _ _ _ _ :=
      Chain.Joint.start.play hplay
    have hbasis : Chain.Basis Fixed.allocator [Fixed.reset] ⟨64, 4096, 0⟩ := .fixed (by decide)
    exact ⟨duet, htiers, hanswer, by simpa using hbyte, hjoint,
      indistinct_of_other_bytes.1 hbasis hlog hjoint⟩
  · have hplayed : (([.deed 0 (.alloc 100 8), .raise (.general 64), .deed 0 (.alloc 20 8),
        .deed 0 (.alloc 20 8), .deed 0 (.write 4244 9), .raise (.fixed ⟨4260, 20⟩),
        .deed 0 (.alloc 4 1)].foldlM
          (Chain.Duet.move ScriptedHeap.allocator (· + 1))
          (⟨[], ⟨fun _ => [], [], ⟨0, 4096, 1024, [3], some 40, 0, 4, 0, 0, 0, 0⟩, ⟨.zero, [], []⟩⟩,
            ⟨fun _ => [], [], ⟨0, 4096, 1024, [3], some 40, 0, 4, 0, 0, 0, 0⟩,
              ⟨⟨fun _ => 255⟩, [], []⟩⟩⟩ : Chain.Duet ScriptedHeap)).map
          fun duet => (duet.tiers.length, duet.left.answers.getLast?,
            duet.left.state.2.memory.byte 4244 == duet.right.state.2.memory.byte 4244)) =
        some (2, some (.ok ⟨4268, 4⟩), false) := by
      decide +kernel
    obtain ⟨duet, hplay, hends⟩ := Option.map_eq_some_iff.1 hplayed
    obtain ⟨htiers, hlast⟩ := Prod.mk.inj hends
    obtain ⟨hanswer, hbyte⟩ := Prod.mk.inj hlast
    have hjoint : Chain.Joint ScriptedHeap.allocator [] _ _ _ _ _ := Chain.Joint.start.play hplay
    have hbasis : Chain.Basis ScriptedHeap.allocator []
        ⟨0, 4096, 1024, [3], some 40, 0, 4, 0, 0, 0, 0⟩ :=
      .heap (by decide) (by decide) (by decide)
    exact ⟨duet, htiers, hanswer, by simpa using hbyte, hjoint,
      indistinct_of_other_bytes.1 hbasis hlog hjoint⟩
  · have hplayed : (([.deed 0 (.alloc 24 8), .deed 0 (.alloc 8 8), .deed 0 (.free ⟨104, 8⟩)].foldlM
          (Chain.Duet.move Fixed.allocator (· + 1))
          (⟨[], ⟨fun _ => [], [], ⟨64, 4096, 0⟩, ⟨⟨fun _ => 255⟩, [], []⟩⟩,
            ⟨fun _ => [], [], ⟨64, 4096, 0⟩, ⟨.zero, [], []⟩⟩⟩ : Chain.Duet Region)).map
          fun duet => duet.left.answers) =
        some [.ok ⟨72, 24⟩, .ok ⟨104, 8⟩, .ok .null] := by
      decide +kernel
    obtain ⟨duet, hplay, hanswers⟩ := Option.map_eq_some_iff.1 hplayed
    obtain ⟨t, hreset, hfresh⟩ := @indistinct_of_other_bytes.2 64 4096 1000
      ⟨⟨fun _ => 255⟩, [], []⟩ .zero (by decide)
    have ht : t = (⟨64, 4096, 0⟩, ⟨⟨fun _ => 255⟩, [], []⟩) := by
      cases hreset
      rfl
    subst ht
    have hjoint : Chain.Joint Fixed.allocator [Fixed.reset] _ _ _ _ _ :=
      Chain.Joint.start.play hplay
    exact ⟨_, duet, hreset, hanswers, hjoint, hfresh hjoint⟩

end AllocChain
