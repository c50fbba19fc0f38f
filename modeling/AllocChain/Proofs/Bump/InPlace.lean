import AllocChain.Proofs.Bump.Settling
import AllocChain.Proofs.Platform.Rounding
import AllocChain.Proofs.Recall

/-!
How a resize ends. It leaves a block where it is exactly if the block can stay there. What cannot
stay is moved, and since the new block is made while the old one is still there, it is never in the
same place (`settles_of_disciplined`). The request for the new block may break off, and just then
there is neither a block nor a refusal (`Settles.breaks`, `breaks_off_while_moving`).
-/

namespace AllocChain

open Memory Region

variable {β γ : Type}

/-- How a resize to some bytes ends. The block stays where it is if and only if `can`, and `after`
is what the bookkeeping is then. Otherwise a new block lies apart from it, or `refusal` says why
there is none; just as `cause` says, the resize breaks off. An aligned block that shrinks stays. -/
structure Settles (A : Allocator γ) (refusal : AllocError → Prop) (cause : Breakdown → Prop)
    (can : Prop) (after : γ) (block : Slice) (size align : Nat) (s : γ × Machine) : Prop where
  stays_iff : (∃ new t, A.resize block size align s = .ok (.ok new, t) ∧
    new.addr = block.addr) ↔ can
  stays : can → ∃ es, A.resize block size align s =
    .ok (.ok ⟨block.addr, size⟩, (after, s.2.report es))
  moves : ¬ can → ∀ new t, A.resize block size align s = .ok (.ok new, t) → new.Disjoint block
  refused : ∀ e t, A.resize block size align s = .ok (.error e, t) → refusal e
  breaks : (A.resize block size align).BreaksJust (fun brk => ¬ can ∧ cause brk) s
  shrinks : normalizeAlign align ∣ block.addr → size ≤ block.len →
    ∃ t, A.resize block size align s = .ok (.ok ⟨block.addr, size⟩, t)

variable {A : Allocator γ} {adjust : Slice → Nat → Nat → Act γ Answer}
  {holds : List Slice → γ × Machine → Prop} {old block : Slice} {out : List Slice}
  {s t : γ × Machine} {size align : Nat} {refusal : AllocError → Prop}
  {cause : Breakdown → Prop} {can : Prop} {after : γ}

/-- A block that is moved lies apart from the old one, which is still there when it is made. -/
theorem Lending.moved_apart (h : Lending A adjust holds) (hh : holds (old :: out) s)
    (hr : AllocChain.relocate A.alloc A.free old size align s = .ok (.ok block, t)) :
    block.Disjoint old := by
  rcases relocate_ok hr with ⟨_, hbad, _⟩ | ⟨fresh, u, hfresh, ha, _⟩
  · cases hbad
  · cases hfresh
    obtain ⟨_, hnew, _⟩ := h.alloc hh ha
    exact (List.pairwise_cons.1 (h.apart hnew)).1 old List.mem_cons_self

/-- What adjusts a block in place or moves it settles it. -/
theorem Lending.settles [Decidable can] (h : Lending A adjust holds)
    (hh : holds (block :: out) s) (hpos : 0 < block.len) (hs : 0 < size) {k : Nat}
    (hk : normalizeAlign align = 2 ^ k) {es : List Event}
    (hrefused : ∀ e t, A.alloc size (2 ^ k) s = .ok (.error e, t) → refusal e)
    (hbreaks : (AllocChain.relocate A.alloc A.free block size (2 ^ k)).BreaksJust cause s)
    (hshrink : 2 ^ k ∣ block.addr → size ≤ block.len → can)
    (hadjust : adjust block size (2 ^ k) s = if can then
        .ok (.ok ⟨block.addr, size⟩, (after, s.2.report es))
      else AllocChain.relocate A.alloc A.free block size (2 ^ k) s) :
    Settles A refusal cause can after block size align s := by
  have hnull := Slice.isNull_eq_false.2 (h.nonnull hh block List.mem_cons_self)
  have hresize : A.resize block size align s = if can then
      .ok (.ok ⟨block.addr, size⟩, (after, s.2.report es))
      else AllocChain.relocate A.alloc A.free block size (2 ^ k) s := by
    rw [h.resize_eq, resizeBy_valid hnull (Nat.pos_iff_ne_zero.1 hs) ⟨k, hk⟩, hk]
    exact hadjust
  have hstay : can → A.resize block size align s =
      .ok (.ok ⟨block.addr, size⟩, (after, s.2.report es)) :=
    fun hstays => hresize.trans (if_pos hstays)
  have hmove : ¬ can → A.resize block size align s =
      AllocChain.relocate A.alloc A.free block size (2 ^ k) s :=
    fun hmoves => hresize.trans (if_neg hmoves)
  have hapart : ¬ can → ∀ new t, A.resize block size align s = .ok (.ok new, t) →
      new.Disjoint block :=
    fun hmoves new t hr => h.moved_apart hh ((hmove hmoves).symm.trans hr)
  refine ⟨⟨?_, fun hstays => ⟨_, _, hstay hstays, rfl⟩⟩, fun hstays => ⟨es, hstay hstays⟩, hapart,
    fun e t hr => ?_, .of_ite hresize fun _ => hbreaks,
    fun hdvd hle => ⟨_, hstay (hshrink (hk ▸ hdvd) hle)⟩⟩
  · rintro ⟨new, t, hr, haddr⟩
    by_contra hmoves
    have hmeets := (h.resize hh hnull (Nat.pos_iff_ne_zero.1 hs) hr).1.1
    refine hapart hmoves new t hr block.addr ?_ (Slice.has_addr hpos)
    rw [← haddr]
    exact Slice.has_addr (Nat.lt_of_lt_of_le hs hmeets)
  · by_cases hstays : can
    · cases (hstay hstays).symm.trans hr
    · exact hrefused e t (relocate_refused ((hmove hstays).symm.trans hr))

/-! ### Disciplined clients -/

section

variable {B : Allocator β} {holds : List Slice → β × Machine → Prop}

/-- The error with which the allocator refuses some valid request in this state. -/
def Allocator.Refuses (B : Allocator β) (u : β × Machine) (e : AllocError) : Prop :=
  ∃ size align v, ValidRequest size align ∧ B.alloc size align u = .ok (.error e, v)

/-- How the allocator breaks off in this state, by the request. -/
def Allocator.Fails (B : Allocator β) (u : β × Machine) (size align : Nat) (brk : Breakdown) :
    Prop :=
  B.alloc size align u = .error brk

theorem Tenants.uncons {A : Allocator γ} {adjust : Slice → Nat → Nat → Act γ Answer}
    {regions : γ → List Region} {kept : List Entry → γ × Machine → Prop} {live : List (Lease γ)}
    {lease : Lease γ} {s : γ × Machine} (h : Stacking A adjust regions kept)
    (hi : Tenants regions kept live s) (hl : lease ∈ live) :
    ∃ es, kept (lease.entry regions :: es) s := by
  obtain ⟨newer, older, rfl⟩ := List.append_of_mem hl
  refine ⟨(newer ++ older).map (·.entry regions), h.perm ?_ hi.kept⟩
  exact List.perm_middle.map _

/-- A block of a client is settled by the region that it lies in. -/
theorem Settling.settles {A : Allocator γ} {adjust : Slice → Nat → Nat → Act γ Answer}
    {regions : γ → List Region} {kept : List Entry → γ × Machine → Prop}
    {put : γ → Nat → Region → γ} {e : Entry} {es : List Entry} {s : γ × Machine}
    {size align i : Nat} {r : Region} {refusal : AllocError → Prop} {cause : Breakdown → Prop}
    (h : Settling A adjust regions kept put) (hk : kept (e :: es) s)
    (haddr : ∀ r ∈ regions s.1, r.Addressable) (hi : (regions s.1)[i]? = some r)
    (hcov : r.Covers e.block) (hs : 0 < size) (halign : ValidAlign align)
    (hrefused : ∀ e t, A.alloc size (normalizeAlign align) s = .ok (.error e, t) → refusal e)
    (hbreaks : (AllocChain.relocate A.alloc A.free e.block size (normalizeAlign align)).BreaksJust
      cause s) :
    Settles A refusal cause (r.Stays e.block size (normalizeAlign align))
      (put s.1 i (r.resized e.block size)) e.block size align s := by
  obtain ⟨k, hpow⟩ := validAlign_iff.1 halign
  obtain ⟨event, hadjust⟩ := h.adjust_eq size k hk haddr hi hcov
  have hheld := Stacking.holds_cons (.refl (es.map (·.block))) hk
  rw [hpow] at hrefused hbreaks ⊢
  exact h.stacking.lending.settles hheld (h.stacking.nonempty hk e List.mem_cons_self) hs hpow
    hrefused hbreaks (fun hdvd hle => ⟨hdvd, .inl hle⟩) hadjust

/-- Every block of a client of a fixed allocator is settled by the only region. -/
theorem Fixed.settles {live : List (Lease Region)} {s : Region × Machine} {lease : Lease Region}
    {size align : Nat} (hi : Tenants (fun r => [r]) Kept live s) (hl : lease ∈ live)
    (hs : 0 < size) (halign : ValidAlign align) :
    Settles allocator (· = .outOfMemory size (normalizeAlign align))
      (fun brk => s.1.AtEdge (normalizeAlign align) ∧ brk = s.2.breakOff .addOverflow)
      (s.1.Stays lease.block size (normalizeAlign align)) (s.1.resized lease.block size)
      lease.block size align s := by
  obtain ⟨es, hk⟩ := hi.uncons stacking hl
  obtain ⟨k, hpow⟩ := validAlign_iff.1 halign
  have hlow : s.1.base + headerSize ≤ lease.block.addr := by
    have := Region.Sound.lower hk _ List.mem_cons_self
    simp only [Lease.entry] at this
    omega
  have hhigh := Region.Sound.upper hk _ List.mem_cons_self
  have hheld := Stacking.holds_cons (.refl (es.map (·.block))) hk
  refine settling.settles (i := 0) hk (fun r hr => List.mem_singleton.1 hr ▸ Kept.addressable hk)
    rfl ⟨hlow, hhigh⟩ hs halign (fun e t ha => ?_) ?_
  · rw [hpow] at ha ⊢
    exact push_refused ((congrFun (allocBy_two_pow hs k) s).symm.trans ha)
  · rw [hpow]
    exact relocate_breaksJust hheld hs

/-- Every block of a client of an arena is settled by the one chunk that it lies in. -/
theorem Arena.settles {live : List (Lease (Arena × β))} {s : (Arena × β) × Machine}
    {lease : Lease (Arena × β)} {size align i : Nat} {r : Region} (hB : Contract B holds)
    (hroom : Roomy s) (hi : Tenants (fun l => l.1.chunks.map (·.region)) (Kept holds) live s)
    (hl : lease ∈ live) (hs : 0 < size) (halign : ValidAlign align)
    (hr : (s.1.1.chunks.map (·.region))[i]? = some r) (hcov : r.Covers lease.block) :
    Settles (allocator B)
      (fun e => e = .outOfMemory size (normalizeAlign align) ∨ B.Refuses (s.1.2, s.2) e)
      (Breaks B (B.Fails (s.1.2, s.2)) size (normalizeAlign align) s)
      (r.Stays lease.block size (normalizeAlign align))
      (putRegion s.1 i (r.resized lease.block size)) lease.block size align s := by
  have hstack := stacking hB.supply hB.custody
  obtain ⟨es, hk⟩ := hi.uncons hstack hl
  obtain ⟨k, hpow⟩ := validAlign_iff.1 halign
  have haddr : ∀ r ∈ s.1.1.chunks.map (·.region), r.Addressable := by
    intro r hr
    obtain ⟨chunk, hc, rfl⟩ := List.mem_map.1 hr
    exact hk.addressable hB.supply hroom chunk hc
  have hheld := Stacking.holds_cons (.refl (es.map (·.block))) hk
  refine (settling hB.supply hB.custody).settles hk haddr hr hcov hs halign (fun e t ha => ?_) ?_
  · rw [hpow] at ha ⊢
    have hserve := (congrFun (allocBy_two_pow hs k) s).symm.trans ha
    rcases serve_refused_behind hB.supply hk.backed hs hserve with
      ⟨rfl, _⟩ | ⟨n, a, u, hvalid, hcall, _⟩
    · exact .inl rfl
    · exact .inr ⟨n, a, u, hvalid, hcall⟩
  · rw [hpow]
    exact relocate_breaksJust hB.supply hB.custody hheld hs fun _ _ _ => .rfl

/-- A block of a slab pool stays where it is if it is aligned and does not grow. -/
theorem SlabPool.settles {block : Slice} {out : List Slice} {s : (SlabPool × β) × Machine}
    {size align : Nat} (hB : Contract B holds) (hk : Kept holds (block :: out) s) (hs : 0 < size)
    (halign : ValidAlign align) :
    Settles (allocator B) (B.Refuses (s.1.2, s.2))
      (Breaks B (B.Fails (s.1.2, s.2)) size (normalizeAlign align) s)
      (normalizeAlign align ∣ block.addr ∧ size ≤ block.len) s.1 block size align s := by
  obtain ⟨k, hpow⟩ := validAlign_iff.1 halign
  have hadjust : adjust B block size (2 ^ k) s = if 2 ^ k ∣ block.addr ∧ size ≤ block.len then
      .ok (.ok ⟨block.addr, size⟩, (s.1, s.2.report []))
      else AllocChain.relocate (alloc B) free block size (2 ^ k) s := by
    rw [Machine.report_nil]
    exact adjust_eq block size k
  rw [hpow]
  refine (lending hB.keeper).settles hk (hk.filled.taken block List.mem_cons_self).1 hs hpow
    (fun e t ha => ?_) (relocate_breaksJust hB hk hs fun _ _ _ => .rfl)
    (fun hdvd hle => ⟨hdvd, hle⟩) hadjust
  have hserve := (congrFun (allocBy_two_pow hs k) s).symm.trans ha
  obtain ⟨n, a, u, hvalid, hcall, _⟩ := serve_refused_behind hB.supply hk.backed.1 hs hserve
  exact ⟨n, a, u, hvalid, hcall⟩

end

/-- Whatever a disciplined client holds, a resize to some bytes leaves a block where it is if and
only if the block is aligned and either does not grow or, but for a slab pool, ends where its region
is used up to and has room there; what is used then ends with it, and no other region changes.
Otherwise a new block lies apart from the old one, or there is none for want of memory or for the
reason for which the allocator behind refuses a valid request. It breaks off just where the request
for a new block does: at the edge of the words, or where the allocator behind breaks off. -/
theorem settles_of_disciplined {size align : Nat} (hs : 0 < size) (halign : ValidAlign align) :
    (∀ {base capacity : Nat} {m : Machine} {live : List (Lease Region)} {s : Region × Machine},
      base + capacity < wordLimit →
      Run Fixed.allocator [Fixed.reset] Disciplined (⟨base, capacity, 0⟩, m) live s →
      ∀ lease ∈ live, Settles Fixed.allocator (· = .outOfMemory size (normalizeAlign align))
        (fun brk => s.1.AtEdge (normalizeAlign align) ∧ brk = s.2.breakOff .addOverflow)
        (s.1.Stays lease.block size (normalizeAlign align)) (s.1.resized lease.block size)
        lease.block size align s) ∧
    ∀ {β : Type} {B : Allocator β} {holds : List Slice → β × Machine → Prop} {b : β} {m : Machine},
      Contract B holds → holds [] (b, m) →
      (∀ {chunkSize : Nat} {live : List (Lease (Arena × β))} {s : (Arena × β) × Machine},
        Run (Arena.allocator B) [Arena.reset B, Arena.destroy B] Disciplined
          ((Arena.new chunkSize, b), m) live s →
        ∀ lease ∈ live,
          (∃! i : Nat, ∃ r, (s.1.1.chunks.map (·.region))[i]? = some r ∧ r.Covers lease.block) ∧
          ∀ i r, (s.1.1.chunks.map (·.region))[i]? = some r → r.Covers lease.block →
            Settles (Arena.allocator B)
              (fun e => e = .outOfMemory size (normalizeAlign align) ∨ B.Refuses (s.1.2, s.2) e)
              (Arena.Breaks B (B.Fails (s.1.2, s.2)) size (normalizeAlign align) s)
              (r.Stays lease.block size (normalizeAlign align))
              (Arena.putRegion s.1 i (r.resized lease.block size)) lease.block size align s) ∧
      ∀ {slabSize : Nat} {live : List (Lease (SlabPool × β))} {s : (SlabPool × β) × Machine},
        Run (SlabPool.allocator B) [SlabPool.destroy B] Disciplined
          ((SlabPool.new slabSize, b), m) live s →
        ∀ lease ∈ live, Settles (SlabPool.allocator B) (B.Refuses (s.1.2, s.2))
          (SlabPool.Breaks B (B.Fails (s.1.2, s.2)) size (normalizeAlign align) s)
          (normalizeAlign align ∣ lease.block.addr ∧ size ≤ lease.block.len) s.1
          lease.block size align s := by
  refine ⟨?_, fun {β B holds b m} hB hback => ⟨?_, ?_⟩⟩
  · intro base capacity m live s hbound hrun lease hl
    exact Fixed.settles (Fixed.tenants_of_run hbound hrun) hl hs halign
  · intro chunkSize live s hrun lease hl
    have hi := Arena.tenants_of_run hB.supply hB.custody hback hrun
    have hstack := Arena.stacking hB.supply hB.custody
    exact ⟨(hi.separated hstack (hi.kept.placed hB.supply)).home lease hl,
      fun i r hr hcov => Arena.settles hB (Arena.roomy_of_run hrun) hi hl hs halign hr hcov⟩
  · intro slabSize live s hrun lease hl
    have hkept : Recalled (SlabPool.Kept holds) live s := by
      refine ((SlabPool.lending hB.keeper).contract.tenancy (SlabPool.orderly B)).run
        (SlabPool.orderly B) ?_ ⟨.new slabSize hback, by simp, by simp⟩ hrun
      intro x hx live s t hi hsweep
      rw [List.mem_singleton.1 hx] at hsweep
      exact ⟨hi.held.destroy hB.keeper hsweep, by simp, by simp⟩
    obtain ⟨newer, older, rfl⟩ := List.append_of_mem hl
    have hheld := (SlabPool.lending hB.keeper).perm (List.perm_middle.map Lease.block) hkept.held
    exact SlabPool.settles hB hheld hs halign

/-- A buffer whose top block grows and whose other block is moved, an arena in which the top block
of an older chunk grows, and a slab pool that moves what grows to a new slab. -/
theorem settles_of_three_clients :
    (∃ live s, Run Fixed.allocator [Fixed.reset] Disciplined
        (⟨64, 256, 0⟩, ⟨.zero, [], []⟩) live s ∧
      live.map (·.block) = [⟨96, 24⟩, ⟨72, 10⟩] ∧ s.1 = ⟨64, 256, 56⟩ ∧
      ∀ lease ∈ live, Settles Fixed.allocator (· = .outOfMemory 48 (normalizeAlign 8))
        (fun brk => s.1.AtEdge (normalizeAlign 8) ∧ brk = s.2.breakOff .addOverflow)
        (s.1.Stays lease.block 48 (normalizeAlign 8)) (s.1.resized lease.block 48)
        lease.block 48 8 s) ∧
    (∃ live s, Run (Arena.allocator Fixed.allocator)
        [Arena.reset Fixed.allocator, Arena.destroy Fixed.allocator] Disciplined
        ((Arena.new 64, ⟨64, 1024, 0⟩), ⟨.zero, [], []⟩) live s ∧
      live.map (·.block) = [⟨152, 40⟩, ⟨80, 40⟩] ∧
      s.1.1.chunks.map (·.region) = [⟨144, 64, 48⟩, ⟨72, 64, 48⟩] ∧
      ∃ es, (Arena.allocator Fixed.allocator).resize ⟨80, 40⟩ 48 8 s =
        .ok (.ok ⟨80, 48⟩, (Arena.putRegion s.1 1 ⟨72, 64, 56⟩, s.2.report es))) ∧
    ∃ live s t, Run (SlabPool.allocator Fixed.allocator) [SlabPool.destroy Fixed.allocator]
        Disciplined ((SlabPool.new 64, ⟨64, 1024, 0⟩), ⟨.zero, [], []⟩) live s ∧
      live.map (·.block) = [⟨72, 40⟩] ∧
      (SlabPool.allocator Fixed.allocator).resize ⟨72, 40⟩ 48 8 s = .ok (.ok ⟨144, 48⟩, t) ∧
      (⟨144, 48⟩ : Slice).Disjoint ⟨72, 40⟩ := by
  have hfixed : (Fixed.allocator.play Disciplined [.alloc 10 8, .alloc 24 16] []
      (⟨64, 256, 0⟩, ⟨.zero, [], []⟩)).map (fun r => (r.1.map (·.block), r.2.1)) =
        some ([⟨96, 24⟩, ⟨72, 10⟩], ⟨64, 256, 56⟩) := by
    decide +kernel
  have harena : ((Arena.allocator Fixed.allocator).play Disciplined [.alloc 40 8, .alloc 40 8] []
      ((Arena.new 64, ⟨64, 1024, 0⟩), ⟨.zero, [], []⟩)).map
        (fun r => (r.1.map (·.block), r.2.1.1.chunks.map (·.region))) =
        some ([⟨152, 40⟩, ⟨80, 40⟩], [⟨144, 64, 48⟩, ⟨72, 64, 48⟩]) := by
    decide +kernel
  have hslabs : ((SlabPool.allocator Fixed.allocator).play Disciplined [.alloc 40 8] []
      ((SlabPool.new 64, ⟨64, 1024, 0⟩), ⟨.zero, [], []⟩)).map (fun r => (r.1.map (·.block),
        ((SlabPool.allocator Fixed.allocator).resize ⟨72, 40⟩ 48 8 r.2).toOption.map
          (·.1.toOption))) = some ([⟨72, 40⟩], some (some ⟨144, 48⟩)) := by
    decide +kernel
  obtain ⟨⟨live, s⟩, hplay, hends⟩ := Option.map_eq_some_iff.1 hfixed
  obtain ⟨⟨live', s'⟩, hplay', hends'⟩ := Option.map_eq_some_iff.1 harena
  obtain ⟨⟨live'', s''⟩, hplay'', hends''⟩ := Option.map_eq_some_iff.1 hslabs
  simp only [Prod.mk.injEq] at hends hends' hends''
  obtain ⟨hlive, hregion⟩ := hends
  obtain ⟨hlive', hregions⟩ := hends'
  obtain ⟨hlive'', hmoved⟩ := hends''
  obtain ⟨⟨answer, t⟩, hresize, hanswer⟩ := Option.map_eq_some_iff.1 hmoved
  replace hanswer : answer = .ok ⟨144, 48⟩ := Act.ok_of_toOption hanswer
  replace hresize := Act.ok_of_toOption hresize
  rw [hanswer] at hresize
  have hrun : Run Fixed.allocator [Fixed.reset] Disciplined _ live s := Run.start.play hplay
  have hrun' : Run (Arena.allocator Fixed.allocator)
      [Arena.reset Fixed.allocator, Arena.destroy Fixed.allocator] Disciplined _ live' s' :=
    Run.start.play hplay'
  have hrun'' : Run (SlabPool.allocator Fixed.allocator) [SlabPool.destroy Fixed.allocator]
      Disciplined _ live'' s'' := Run.start.play hplay''
  have hpos : 0 < 48 := by decide
  have halign : ValidAlign 8 := .inr ⟨3, rfl⟩
  have hnone : Stacking.Holds Fixed.Kept [] ((⟨64, 1024, 0⟩ : Region), ⟨.zero, [], []⟩) :=
    Fixed.holds_nil (by decide)
  obtain ⟨harena, hslab⟩ :=
    (settles_of_disciplined hpos halign).2 Fixed.stacking.contract hnone
  refine ⟨⟨live, s, hrun, hlive, hregion,
      (settles_of_disciplined hpos halign).1 (by decide) hrun⟩,
    ⟨live', s', hrun', hlive', hregions, ?_⟩, live'', s'', t, hrun'', hlive'', hresize, ?_⟩
  · obtain ⟨lease, hl, hblock⟩ : ∃ lease ∈ live', lease.block = ⟨80, 40⟩ :=
      List.mem_map.1 (hlive' ▸ by decide)
    obtain ⟨_, hsettles⟩ := harena hrun' lease hl
    rw [hblock, hregions] at hsettles
    exact (hsettles 1 ⟨72, 64, 48⟩ rfl ⟨by decide, by decide⟩).stays (by decide)
  · obtain ⟨lease, hl, hblock⟩ : ∃ lease ∈ live'', lease.block = ⟨72, 40⟩ :=
      List.mem_map.1 (hlive'' ▸ by decide)
    have hsettles := hslab hrun'' lease hl
    rw [hblock] at hsettles
    exact hsettles.moves (by decide) _ _ hresize

/-- A block that fills a buffer up to 264 bytes below the end of the words, and is asked to be
aligned to 256 bytes, is not refused: where its header would end and the alignment add up to the
first number that is no word. Neither is a block of an arena over pages that is asked to grow to
where its chunk would be of such a length. -/
theorem breaks_off_while_moving :
    (∃ live s, Run Fixed.allocator [Fixed.reset] Disciplined
        (⟨2 ^ 40, 2 ^ 64 - 2 ^ 40 - 264, 0⟩, ⟨.zero, [], []⟩) live s ∧
      live.map (·.block) = [⟨2 ^ 40 + 8, 2 ^ 64 - 2 ^ 40 - 272⟩] ∧
      ∃ brk, Fixed.allocator.resize ⟨2 ^ 40 + 8, 2 ^ 64 - 2 ^ 40 - 272⟩ 8 256 s = .error brk ∧
        brk.fault = .addOverflow) ∧
    ∃ live s, Run (Arena.allocator (Pages.allocator Pages.platformMapper 4096))
        [Arena.reset (Pages.allocator Pages.platformMapper 4096),
          Arena.destroy (Pages.allocator Pages.platformMapper 4096)] Disciplined
        ((Arena.new 64, Platform.fresh), ⟨.zero, [], []⟩) live s ∧
      live.map (·.block) = [⟨2 ^ 56 + 8, 16⟩] ∧
      ∃ brk, (Arena.allocator (Pages.allocator Pages.platformMapper 4096)).resize
          ⟨2 ^ 56 + 8, 16⟩ (2 ^ 64 - 4104) 8 s = .error brk ∧ brk.fault = .addOverflow := by
  have hfixed : (Fixed.allocator.play Disciplined [.alloc (2 ^ 64 - 2 ^ 40 - 272) 8] []
      (⟨2 ^ 40, 2 ^ 64 - 2 ^ 40 - 264, 0⟩, ⟨.zero, [], []⟩)).map (fun r => (r.1.map (·.block),
        (Fixed.allocator.resize ⟨2 ^ 40 + 8, 2 ^ 64 - 2 ^ 40 - 272⟩ 8 256).fault? r.2)) =
        some ([⟨2 ^ 40 + 8, 2 ^ 64 - 2 ^ 40 - 272⟩], some .addOverflow) := by
    decide +kernel
  have harena : ((Arena.allocator (Pages.allocator Pages.platformMapper 4096)).play Disciplined
      [.alloc 16 8] [] ((Arena.new 64, Platform.fresh), ⟨.zero, [], []⟩)).map (fun r =>
        (r.1.map (·.block), ((Arena.allocator (Pages.allocator Pages.platformMapper 4096)).resize
          ⟨2 ^ 56 + 8, 16⟩ (2 ^ 64 - 4104) 8).fault? r.2)) =
        some ([⟨2 ^ 56 + 8, 16⟩], some .addOverflow) := by
    decide +kernel
  obtain ⟨⟨live, s⟩, hplay, hends⟩ := Option.map_eq_some_iff.1 hfixed
  obtain ⟨⟨live', s'⟩, hplay', hends'⟩ := Option.map_eq_some_iff.1 harena
  obtain ⟨hlive, hfault⟩ := Prod.mk.inj hends
  obtain ⟨hlive', hfault'⟩ := Prod.mk.inj hends'
  exact ⟨⟨live, s, Run.start.play hplay, hlive, Act.fault?_eq_some_iff.1 hfault⟩,
    live', s', Run.start.play hplay', hlive', Act.fault?_eq_some_iff.1 hfault'⟩

end AllocChain
