import AllocChain.Proofs.Chain.Footing
import AllocChain.Proofs.Chain.Refusal
import AllocChain.Proofs.Watch

/-!
Why requests are refused. A request for no bytes, or for a bad alignment, is refused by whoever is
asked, with nothing done (`Allocator.Sifts`); any other is refused only for want of memory, however
deep in the chain memory ran out. The reason is that no allocator of a chain asks the one below for
anything that could be refused as it stands, or names a block there that is not its own
(`refused_exactly`). But for the edges of the chain every such request is answered or refused, and
at an edge it breaks off, memory or no memory (`breaks_off_near_top`).
-/

namespace AllocChain

open Memory

variable {β γ L : Type}

/-- What cannot be served is refused in every state, with nothing done: a request for no bytes, and
a request or a resize to some bytes with a bad alignment. -/
structure Allocator.Sifts (A : Allocator γ) : Prop where
  alloc_zero (align : Nat) (s : γ × Machine) : A.alloc 0 align s = .ok (.error .zeroSize, s)
  alloc_invalid {size align : Nat} (s : γ × Machine) : size ≠ 0 → ¬ ValidAlign align →
    A.alloc size align s = .ok (.error (.invalidLayout size align), s)
  resize_invalid {block : Slice} {size align : Nat} (s : γ × Machine) : block.isNull = false →
    size ≠ 0 → ¬ ValidAlign align →
    A.resize block size align s = .ok (.error (.invalidLayout size align), s)

/-- How a request that could be served ends: with a block, for want of memory, or not at all, just
as `cause` says. -/
structure Served (cause : Breakdown → Prop) (x : Except Breakdown (Answer × γ × Machine)) :
    Prop where
  refused : ∀ e t, x = .ok (.error e, t) → ∃ size align, e = .outOfMemory size align
  breaks : ∀ brk, x = .error brk ↔ cause brk

/-- Requests, and resizes of blocks of `out`, are refused as they stand or end as they should, and
break off at the edges only. -/
structure Allocator.Discerns (A : Allocator γ) (E : Edges γ) (out : List Slice) (s : γ × Machine) :
    Prop extends A.Sifts where
  alloc_valid {size align : Nat} : size ≠ 0 → ValidAlign align →
    Served (E.alloc size align s) (A.alloc size align s)
  resize_valid {block : Slice} {size align : Nat} : block ∈ out → size ≠ 0 → ValidAlign align →
    Served (E.resize block size align s) (A.resize block size align s)
  live {block : Slice} : block ∈ out → block.isNull = false

/-- No request, and no resize of a block of `out` to some bytes, is at an edge. -/
def Edges.Distant (E : Edges γ) (out : List Slice) (s : γ × Machine) : Prop :=
  ∀ brk, (∀ size align, ¬ E.alloc size align s brk) ∧
    ∀ block ∈ out, ∀ size align, size ≠ 0 → ¬ E.resize block size align s brk

theorem checkRequest_invalid {size align : Nat} (hs : size ≠ 0) (halign : ¬ ValidAlign align) :
    checkRequest size align = .error (.invalidLayout size align) := by
  refine checkRequest_eq_invalidLayout hs (Bool.eq_false_iff.2 fun hpow => halign ?_)
  exact validAlign_iff.2 (Word.isPowerOfTwo_iff.1 hpow)

/-- Who checks its requests first sifts them. -/
theorem Allocator.Sifts.of_checks {A : Allocator γ} {serve : Nat → Nat → Act γ Answer}
    {adjust : Slice → Nat → Nat → Act γ Answer} (halloc : A.alloc = allocBy serve)
    (hresize : A.resize = resizeBy A.alloc A.free adjust) : A.Sifts where
  alloc_zero align s := by
    rw [halloc]
    rfl
  alloc_invalid s hs halign := by
    simp only [halloc, allocBy, checkRequest_invalid hs halign, Act.pure_apply]
  resize_invalid s hn hs halign := by
    simp only [hresize, resizeBy, hn, Bool.false_eq_true, if_false, if_neg hs,
      checkRequest_invalid hs halign, Act.pure_apply]

theorem Fixed.sifts : Fixed.allocator.Sifts := .of_checks rfl rfl

theorem Allocator.Sifts.above {A : Allocator L} (h : A.Sifts) :
    (A.lift Act.above : Allocator (L × β)).Sifts where
  alloc_zero align _ := Act.above_ok.2 ⟨_, h.alloc_zero align _, rfl⟩
  alloc_invalid _ hs halign := Act.above_ok.2 ⟨_, h.alloc_invalid _ hs halign, rfl⟩
  resize_invalid _ hn hs halign := Act.above_ok.2 ⟨_, h.resize_invalid _ hn hs halign, rfl⟩

/-- A tier that does not pass its requests on as they are sifts them. -/
theorem Tier.Sorts.sifts {tier : Tier} (h : tier.Sorts) (B : Allocator β) :
    (tier.allocator B).Sifts := by
  cases tier with
  | fixed buffer => exact Fixed.sifts.above
  | arena | slabs | general => exact .of_checks rfl rfl
  | counting => exact h.elim

/-- The terms on which a run is compared with itself, memory may run out, and nothing else is a
reason to refuse a valid request. -/
def Terms.frugal (may : Prop) : Terms where
  may := may
  mirror := True
  fair _ _ := True
  refusal e := ∃ size align, e = .outOfMemory size align
  fair_of_valid _ := trivial
  exhausted size align := ⟨size, align, rfl⟩

/-- The terms on which a run is compared with itself and only valid requests are made. -/
def Terms.valid : Terms where
  may := True
  mirror := True
  fair := ValidRequest
  refusal _ := True
  fair_of_valid := id
  exhausted _ _ := trivial

theorem Act.Alike.served {may valid : Prop} {rel : List Slice → γ × Machine → γ × Machine → Prop}
    {out kept : List Slice} {x : Act γ Answer} {s : γ × Machine} {cause : Breakdown → Prop}
    (h : Act.Alike may (Answered (.frugal may) rel valid out kept) x x s s)
    (hvalid : valid) (hbreaks : x.BreaksJust cause s) : Served cause (x s) where
  refused e t hx := by
    obtain ⟨_, _, _, hpost⟩ := h.of_ok (.refl _) hx
    exact hpost.2 hvalid
  breaks := hbreaks

namespace Chain

/-- The topmost allocator is not a heap, and it does not only count. -/
inductive Sorts : {β : Type} → Allocator β → List Tier → Prop
  | fixed : Sorts Fixed.allocator []
  | tier {β : Type} {B : Allocator β} {tier : Tier} {tiers} : tier.Sorts → Sorts B (tier :: tiers)

variable {B : Allocator β} {bottom : List (Act β Unit)} {E : Edges β} {b : β} {top n : Nat}
  {m : Machine} {tiers : List Tier} {clients : Nat → List Slice} {s : Book β tiers × Machine}

theorem Sorts.sifts (h : Sorts B tiers) : (allocator B tiers).Sifts := by
  cases h with
  | fixed => exact Fixed.sifts
  | tier hsorts => exact hsorts.sifts _

/-- On whatever foundation a chain is alike to itself and breaks off at its edges only. -/
theorem Course.alike (hB : Foundation B bottom E b top)
    (h : Course B bottom (fun _ _ => True) (b, m) n tiers clients s) (may : Prop)
    (htop : may ∨ top ≤ addressLimit) (hcount : may ∨ n + 1 < wordLimit) : ∃ holds rel,
      Twins (.frugal may) (allocator B tiers) holds holds rel ∧
      (allocator B tiers).BreaksAt (edges B E tiers) holds ∧
      Paired holds holds (rel 1) (clients 0) s s ∧
      ∀ block ∈ clients 0, block.isNull = false := by
  obtain ⟨holds, rel, hF, hfresh, hE⟩ := hB.footing (.frugal may)
  have hstart := hfresh (n + 1) m m htop hcount fun _ => rfl
  have hN : Footing (.frugal may) B bottom (NonNull holds) (NonNull holds) rel :=
    { toTwins := hF.toTwins.nonNull
      sweep := fun hx _ _ _ _ hp => (hF.sweep hx ⟨hp.left.1, hp.right.1, hp.related⟩).imp
        fun _ _ _ _ _ hpost => ⟨⟨hpost.left, by simp⟩, ⟨hpost.right, by simp⟩, hpost.related⟩ }
  have habreast := Course.beside hN hcount ⟨hstart.left, by simp⟩ hstart.related h rfl
  exact ⟨_, _, twins hN.toTwins s.2.memory s.2.memory tiers clients,
    breaksAt hN.service (hE.mono fun _ _ hh => hh.1) s.2.memory tiers clients, habreast,
    fun block hmem => Slice.isNull_eq_false.2 (habreast.left.nonnull hF.service _ hmem)⟩

/-- What is not refused as it stands is served. -/
theorem Course.discerns (hB : Foundation B bottom E b top) (hsorts : Sorts B tiers)
    (h : Course B bottom (fun _ _ => True) (b, m) n tiers clients s) :
    (allocator B tiers).Discerns (edges B E tiers) (clients 0) s := by
  obtain ⟨holds, rel, hT, hE, hp, hlive⟩ := h.alike hB True (.inl trivial) (.inl trivial)
  have hvalid : ∀ {size align}, size ≠ 0 → ValidAlign align → ValidRequest size align :=
    fun hs halign => ⟨Nat.pos_of_ne_zero hs, validAlign_iff.1 halign⟩
  refine { hsorts.sifts with alloc_valid := ?_, resize_valid := ?_, live := hlive _ }
  · intro size align hs halign
    exact (hT.alloc hp trivial).served (hvalid hs halign) (hE.alloc size align hp.left)
  · intro block size align hmem hs halign
    have hheld := hT.paired_perm (List.perm_cons_erase hmem) hp
    exact (hT.resize hheld (hlive block hmem) hs trivial).served (hvalid hs halign)
      (hE.resize align hheld.left hs)

/-- If the addresses end low and the calls are few, no edge is near. -/
theorem Course.distant (hB : Foundation B bottom E b top)
    (h : Course B bottom (fun _ _ => True) (b, m) n tiers clients s) (htop : top ≤ addressLimit)
    (hn : n < 2 ^ 63) : (edges B E tiers).Distant (clients 0) s := by
  have hcount : n + 1 < wordLimit := Nat.lt_of_le_of_lt hn (by decide)
  obtain ⟨holds, rel, hT, hE, hp, hlive⟩ := h.alike hB False (.inr htop) (.inr hcount)
  refine fun brk => ⟨fun size align hedge => ?_, fun block hmem size align hs hedge => ?_⟩
  · obtain ⟨_, _, hreturns, _⟩ := (hT.alloc hp trivial).returns
    cases hreturns.symm.trans ((hE.alloc size align hp.left brk).2 hedge)
  · have hheld := hT.paired_perm (List.perm_cons_erase hmem) hp
    obtain ⟨_, _, hreturns, _⟩ := (hT.resize hheld (hlive block hmem) hs trivial).returns
    cases hreturns.symm.trans ((hE.resize align hheld.left hs brk).2 hedge)

theorem ground_paired {T : Terms} {holds holds' : List Slice → β × Machine → Prop}
    {rel : Nat → List Slice → β × Machine → β × Machine → Prop} {m₀ m₀' : Memory}
    {out : List Slice} {s s' : Book β tiers × Machine}
    (hp : Paired (Stands holds m₀ tiers clients) (Stands holds' m₀' tiers clients)
      (Twin T rel tiers clients n) out s s') :
    ∃ blocks, Paired holds holds' (rel n) blocks (ground tiers s.1, s.2)
      (ground tiers s'.1, s'.2) := by
  induction tiers generalizing clients out with
  | nil => exact ⟨out, hp⟩
  | cons tier tiers ih =>
    obtain ⟨blocks, hblocks⟩ := Tier.backed_paired hp
    exact ih ⟨hblocks.left.1, hblocks.right.1, hblocks.related⟩

/-- What a chain calls that stands on another one: it names its own blocks there and asks for what
can be served. -/
theorem Course.calls (hB : Foundation B bottom E b top)
    (h : Course B bottom (fun _ _ => True) (b, m) n tiers clients s) {n' : Nat} {upper : List Tier}
    {clients' : Nat → List Slice} {t : Book (List Call × Book β tiers) upper × Machine}
    (h' : Course (allocator B tiers).watched [] ValidRequest (([], s.1), s.2) n' upper clients' t) :
    Exact (ground upper t.1).1 ∧ ∀ call ∈ (ground upper t.1).1, call.Asks ValidRequest := by
  have hmay : Terms.valid.may := trivial
  obtain ⟨holds, rel, hF, hfresh, _⟩ := hB.footing Terms.valid.open
  have hstart := hfresh (n + n') m m (.inl hmay) (.inl hmay) fun _ => rfl
  have habreast := Course.beside hF (.inl hmay) hstart.left hstart.related h rfl
  -- the blocks of the clients of the lower chain are a frame around those of the upper one
  have hlower := ((twins hF.toTwins s.2.memory s.2.memory tiers clients).framed (clients 0)
    s.2.memory s.2.memory).close
  have hwatched : Footing Terms.valid (allocator B tiers).watched [] _ _ _ :=
    { toTwins := hlower.watched, sweep := fun hx => by cases hx }
  have hframed : NonNull (Framed (Stands holds s.2.memory tiers clients) (clients 0) s.2.memory) []
      s := ⟨⟨habreast.left, .refl _ _⟩, by simp⟩
  have hends := Course.beside hwatched (.inl hmay) (.nil hframed)
    ⟨⟨rfl, habreast.related⟩, by simp⟩ h' (Nat.add_zero n')
  obtain ⟨blocks, hbottom⟩ := ground_paired hends
  exact ⟨hbottom.left.2.1, hbottom.related.asked⟩

end Chain

/-- Whatever disciplined clients have done with a chain, its topmost allocator refuses requests for
no bytes and for bad alignments as they stand, and other requests and resizes of its blocks only for
want of memory; these break off at the edges of the chain and nowhere else, and if the addresses at
the bottom end low and the calls are few, that is nowhere. A chain asks the one that it stands on
only for what can be served, and names only its own blocks there. -/
theorem refused_exactly {β : Type} {B : Allocator β} {bottom : List (Act β Unit)} {E : Edges β}
    {b : β} {top : Nat} {m : Machine} (hB : Chain.Foundation B bottom E b top) :
    (∀ {n : Nat} {tiers : List Tier} {clients : Nat → List Slice}
      {s : Chain.Book β tiers × Machine}, Chain.Sorts B tiers →
      Chain.Course B bottom (fun _ _ => True) (b, m) n tiers clients s →
      (Chain.allocator B tiers).Discerns (Chain.edges B E tiers) (clients 0) s ∧
        (top ≤ addressLimit → n < 2 ^ 63 → (Chain.edges B E tiers).Distant (clients 0) s)) ∧
    ∀ {n n' : Nat} {lower upper : List Tier} {clients clients' : Nat → List Slice}
      {s : Chain.Book β lower × Machine}
      {t : Chain.Book (List Call × Chain.Book β lower) upper × Machine},
      Chain.Course B bottom (fun _ _ => True) (b, m) n lower clients s →
      Chain.Course (Chain.allocator B lower).watched [] ValidRequest (([], s.1), s.2) n' upper
        clients' t →
      Exact (Chain.ground upper t.1).1 ∧
        ∀ call ∈ (Chain.ground upper t.1).1, call.Asks ValidRequest :=
  ⟨fun hsorts h => ⟨h.discerns hB hsorts, h.distant hB⟩, fun h h' => h.calls hB h'⟩

/-- Four tiers over a fixed allocator whose client asks for nothing and for a bad alignment, and a
general-purpose allocator over two of them, which asks the arena for a bucket and for a large block,
has that resized, and gives the bucket back. -/
theorem refused_exactly_by_four_tiers :
    (∃ (n : Nat) (scene : Chain.Scene Region), scene.tiers.length = 4 ∧
      scene.clients 0 = [⟨128, 20⟩] ∧
      Chain.Course Fixed.allocator [Fixed.reset] (fun _ _ => True)
        (⟨64, 2048, 0⟩, ⟨.zero, [], []⟩) n scene.tiers scene.clients scene.state ∧
      (Chain.allocator Fixed.allocator scene.tiers).Discerns
        (Chain.edges Fixed.allocator Fixed.edges scene.tiers) (scene.clients 0) scene.state ∧
      (Chain.edges Fixed.allocator Fixed.edges scene.tiers).Distant (scene.clients 0)
        scene.state) ∧
    ∃ (n n' : Nat) (lower : Chain.Scene Region)
      (upper : Chain.Scene (List Call × Chain.Book Region lower.tiers)),
      Chain.Course Fixed.allocator [Fixed.reset] (fun _ _ => True)
        (⟨64, 2048, 0⟩, ⟨.zero, [], []⟩) n lower.tiers lower.clients lower.state ∧
      Chain.Course (Chain.allocator Fixed.allocator lower.tiers).watched [] ValidRequest
        (([], lower.state.1), lower.state.2) n' upper.tiers upper.clients upper.state ∧
      lower.tiers.length = 2 ∧ upper.tiers.length = 1 ∧
      (Chain.ground upper.tiers upper.state.1).1.length = 4 ∧
      Exact (Chain.ground upper.tiers upper.state.1).1 ∧
      ∀ call ∈ (Chain.ground upper.tiers upper.state.1).1, call.Asks ValidRequest := by
  have hB : Chain.Foundation Fixed.allocator [Fixed.reset] Fixed.edges ⟨64, 2048, 0⟩ (64 + 2048) :=
    .fixed (by decide)
  have hlone : ((⟨[], fun _ => [], ⟨64, 2048, 0⟩, ⟨.zero, [], []⟩⟩ : Chain.Scene Region).play
      Fixed.allocator [.raise (.arena 256), .deed 0 (.alloc 40 8), .raise (.slabs 64),
        .raise .counting, .raise (.general 32), .deed 0 (.alloc 20 8), .deed 0 (.alloc 0 8),
        .deed 0 (.resize ⟨128, 20⟩ 24 12)]).map
          (fun scene => (scene.tiers.length, scene.clients 0,
            scene.tiers.head?.any fun tier => decide tier.Sorts)) =
      some (4, [⟨128, 20⟩], true) := by
    decide +kernel
  have hboth : ((⟨[], fun _ => [], ⟨64, 2048, 0⟩, ⟨.zero, [], []⟩⟩ : Chain.Scene Region).play
      Fixed.allocator [.raise (.arena 256), .deed 0 (.alloc 40 8), .raise .counting,
        .deed 0 (.alloc 8 8)]).bind (fun lower =>
          ((⟨[], fun _ => [], (([], lower.state.1), lower.state.2)⟩ :
            Chain.Scene (List Call × Chain.Book Region lower.tiers)).play
              (Chain.allocator Fixed.allocator lower.tiers).watched
              [.raise (.general 32), .deed 0 (.alloc 20 8), .deed 0 (.alloc 100 16),
                .deed 0 (.resize ⟨208, 100⟩ 60 16), .deed 0 (.free ⟨160, 20⟩)]).map
              fun upper => (lower.tiers.length, upper.tiers.length,
                (Chain.ground upper.tiers upper.state.1).1.length)) = some (2, 1, 4) := by
    decide +kernel
  constructor
  · obtain ⟨scene, hplay, hends⟩ := Option.map_eq_some_iff.1 hlone
    simp only [Prod.mk.injEq] at hends
    obtain ⟨htiers, hclients, hfirst⟩ := hends
    obtain ⟨n, hle, hcourse⟩ := Chain.Course.start.play (fun _ d _ => d.asks_anything) hplay
    have hn : n ≤ 8 := by simpa using hle
    have hsorts : ∀ tiers : List Tier, (tiers.head?.any fun tier => decide tier.Sorts) = true →
        Chain.Sorts Fixed.allocator tiers := by
      intro tiers hhead
      cases tiers with
      | nil => cases hhead
      | cons tier tiers => exact .tier (of_decide_eq_true hhead)
    obtain ⟨hdiscerns, hdistant⟩ := (refused_exactly hB).1 (hsorts _ hfirst) hcourse
    exact ⟨n, scene, htiers, hclients, hcourse, hdiscerns, hdistant (by decide) (by omega)⟩
  · obtain ⟨lower, hplay, hrest⟩ := Option.bind_eq_some_iff.1 hboth
    obtain ⟨upper, hplay', hends⟩ := Option.map_eq_some_iff.1 hrest
    simp only [Prod.mk.injEq] at hends
    obtain ⟨htiers, htiers', hlength⟩ := hends
    obtain ⟨n, _, hcourse⟩ := Chain.Course.start.play (fun _ d _ => d.asks_anything) hplay
    have hasks : ∀ k d, Chain.Move.deed k d ∈ [Chain.Move.raise (.general 32),
        .deed 0 (.alloc 20 8), .deed 0 (.alloc 100 16), .deed 0 (.resize ⟨208, 100⟩ 60 16),
        .deed 0 (.free ⟨160, 20⟩)] → d.Asks ValidRequest := by
      intro k d hmem
      simp only [List.mem_cons, reduceCtorEq, Chain.Move.deed.injEq, List.not_mem_nil, or_false,
        false_or] at hmem
      rcases hmem with ⟨_, rfl⟩ | ⟨_, rfl⟩ | ⟨_, rfl⟩ | ⟨_, rfl⟩
      · exact validRequest_two_pow (by decide) 3
      · exact validRequest_two_pow (by decide) 4
      · exact .inr (validRequest_two_pow (by decide) 4)
      · trivial
    obtain ⟨n', _, hcourse'⟩ := Chain.Course.start.play hasks hplay'
    exact ⟨n, n', lower, upper, hcourse, hcourse', htiers, htiers', hlength,
      (refused_exactly hB).2 hcourse hcourse'⟩

/-- A buffer that starts 264 bytes below the end of the words and has room for no such request: it
is not refused, for where its header would end and the alignment add up to the first number that is
no word. -/
theorem breaks_off_near_top :
    Chain.Foundation Fixed.allocator [Fixed.reset] Fixed.edges ⟨2 ^ 64 - 264, 128, 0⟩
      (2 ^ 64 - 264 + 128) ∧
    Chain.Sorts Fixed.allocator [] ∧
    Chain.Course Fixed.allocator [Fixed.reset] (fun _ _ => True)
      (⟨2 ^ 64 - 264, 128, 0⟩, ⟨.zero, [], []⟩) 0 [] (fun _ => [])
      (⟨2 ^ 64 - 264, 128, 0⟩, ⟨.zero, [], []⟩) ∧
    ValidAlign 256 ∧
    Fixed.allocator.alloc 8 256 (⟨2 ^ 64 - 264, 128, 0⟩, ⟨.zero, [], []⟩) =
      .error ⟨.addOverflow, [], []⟩ :=
  ⟨.fixed (by decide), .fixed, .start, .inr ⟨8, rfl⟩, rfl⟩

end AllocChain
