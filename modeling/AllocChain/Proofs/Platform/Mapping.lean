import AllocChain.Proofs.Platform.Rounding

/-!
What is mapped. The calls that a mapper got tell which addresses are mapped (`Mapper.mapped`), and
whether only mapped ones were unmapped (`Mapper.AllCovered`). `Mapper.Keeps` is what the page
allocator relies on: a mapper that knows what is mapped hands out nothing of it a second time.

Blocks tile what is mapped if nothing else is mapped than the pages on which they lie, and no page
belongs to two of them (`Pages.Tiles`). They still do so when the pages of a new block are mapped,
when all pages of a block are unmapped, and when the last ones of a block are.
-/

namespace AllocChain

/-- The addresses of a slice. -/
def Slice.addresses (s : Slice) : Set Nat := {a | s.Has a}

theorem Slice.mem_addresses {s : Slice} {a : Nat} :
    a ∈ s.addresses ↔ s.addr ≤ a ∧ a < s.addr + s.len := Iff.rfl

namespace Mapper

variable {β : Type} {M : Mapper β} {pageSize len addr start : Nat} {others : Set Nat}
  {holds : Set Nat → β × Machine → Prop} {found : Option Nat}

/-! ### Calls -/

/-- A call on a mapper together with its answer; `none` stands for a refusal. -/
inductive Call where
  | map (len : Nat) (found : Option Nat)
  | unmap (addr len : Nat)
  deriving DecidableEq, Repr

/-- What is mapped after a call. -/
def Call.after (mapped : Set Nat) : Call → Set Nat
  | .map _ none => mapped
  | .map len (some start) => mapped ∪ (Slice.mk start len).addresses
  | .unmap addr len => mapped \ (Slice.mk addr len).addresses

/-- What is unmapped are whole pages, and all of it is mapped. -/
def Call.Covered (pageSize : Nat) (mapped : Set Nat) : Call → Prop
  | .map _ _ => True
  | .unmap addr len =>
    pageSize ∣ addr ∧ pageSize ∣ len ∧ (Slice.mk addr len).addresses ⊆ mapped

/-- What is mapped after some calls, if it is `others` before them. -/
def mapped (others : Set Nat) (calls : List Call) : Set Nat := calls.foldl Call.after others

/-- Every call is covered by what is mapped before it. -/
def AllCovered (pageSize : Nat) : Set Nat → List Call → Prop
  | _, [] => True
  | others, call :: calls =>
    call.Covered pageSize others ∧ AllCovered pageSize (call.after others) calls

theorem mapped_concat (others : Set Nat) (calls : List Call) (call : Call) :
    mapped others (calls ++ [call]) = call.after (mapped others calls) :=
  List.foldl_concat ..

theorem AllCovered.concat {calls : List Call} {call : Call} (h : AllCovered pageSize others calls)
    (hc : call.Covered pageSize (mapped others calls)) :
    AllCovered pageSize others (calls ++ [call]) := by
  induction calls generalizing others with
  | nil => exact ⟨hc, trivial⟩
  | cons first calls ih => exact ⟨h.1, ih h.2 hc⟩

/-- The mapper, writing down every call and its answer. -/
def traced (M : Mapper β) : Mapper (List Call × β) where
  map len := do
    let found ← Act.below (M.map len)
    Act.setOwn ((← Act.own) ++ [.map len found])
    return found
  unmap addr len := do
    Act.below (M.unmap addr len)
    Act.setOwn ((← Act.own) ++ [.unmap addr len])

section

variable {s t : (List Call × β) × Machine}

theorem traced_map_ok : M.traced.map len s = .ok (found, t) ↔
    ∃ u, M.map len (s.1.2, s.2) = .ok (found, u) ∧
      t = ((s.1.1 ++ [.map len found], u.1), u.2) := by
  simp only [traced, Act.bind_ok, Act.below_ok, Act.own_ok, Act.setOwn_ok, Act.pure_ok]
  constructor
  · rintro ⟨_, _, ⟨u, hcall, rfl⟩, _, _, ⟨rfl, rfl⟩, _, _, rfl, rfl, rfl⟩
    exact ⟨u, hcall, rfl⟩
  · rintro ⟨u, hcall, rfl⟩
    exact ⟨found, _, ⟨u, hcall, rfl⟩, _, _, ⟨rfl, rfl⟩, ⟨⟩, _, rfl, rfl, rfl⟩

theorem traced_unmap_ok : M.traced.unmap addr len s = .ok ((), t) ↔
    ∃ u, M.unmap addr len (s.1.2, s.2) = .ok ((), u) ∧
      t = ((s.1.1 ++ [.unmap addr len], u.1), u.2) := by
  simp only [traced, Act.bind_ok, Act.below_ok, Act.own_ok, Act.setOwn_ok]
  constructor
  · rintro ⟨_, _, ⟨u, hcall, rfl⟩, _, _, ⟨rfl, rfl⟩, rfl⟩
    exact ⟨u, hcall, rfl⟩
  · rintro ⟨u, hcall, rfl⟩
    exact ⟨⟨⟩, _, ⟨u, hcall, rfl⟩, _, _, ⟨rfl, rfl⟩, rfl⟩

theorem mapped_refused (h : M.traced.map len s = .ok (none, t)) :
    mapped others t.1.1 = mapped others s.1.1 := by
  obtain ⟨u, _, rfl⟩ := traced_map_ok.1 h
  exact mapped_concat ..

end

theorem Serves.traced (hM : M.Serves pageSize) : M.traced.Serves pageSize where
  map len s := by
    obtain ⟨found, u, hcall, hfound⟩ := hM.map len (s.1.2, s.2)
    exact ⟨found, _, traced_map_ok.2 ⟨u, hcall, rfl⟩, hfound⟩
  unmap addr len s := by
    obtain ⟨u, hcall⟩ := hM.unmap addr len (s.1.2, s.2)
    exact ⟨_, traced_unmap_ok.2 ⟨u, hcall, rfl⟩⟩

/-! ### What is relied on -/

/-- What is relied on of a mapper that knows what is mapped: `holds mapped s` stands for "in state
`s` the addresses of `mapped` are mapped", whatever the mapper does to keep track of them. Whole
pages are mapped where nothing is mapped yet, and not at address zero; whole pages that are mapped
can be unmapped; and a refusal changes nothing. -/
structure Keeps (M : Mapper β) (pageSize : Nat) (holds : Set Nat → β × Machine → Prop) : Prop
    extends M.Serves pageSize where
  machine {mapped b m m'} : holds mapped (b, m) → holds mapped (b, m')
  refused {mapped s len t} : holds mapped s → M.map len s = .ok (none, t) → holds mapped t
  granted {mapped s len start t} : holds mapped s → pageSize ∣ len →
    M.map len s = .ok (some start, t) →
    start ≠ 0 ∧ (∀ a ∈ mapped, ¬ (Slice.mk start len).Has a) ∧
      holds ((Call.map len (some start)).after mapped) t
  unmapped {mapped s addr len t} : holds mapped s →
    (Call.unmap addr len).Covered pageSize mapped → M.unmap addr len s = .ok ((), t) →
    holds ((Call.unmap addr len).after mapped) t

/-- The mapper knows what is mapped, and only what was mapped has been unmapped. -/
structure Book (pageSize : Nat) (holds : Set Nat → β × Machine → Prop) (others : Set Nat)
    (s : (List Call × β) × Machine) : Prop where
  known : holds (mapped others s.1.1) (s.1.2, s.2)
  covered : AllCovered pageSize others s.1.1

namespace Book

variable {s t : (List Call × β) × Machine}

theorem nil {b : β} {m : Machine} (h : holds others (b, m)) :
    Book pageSize holds others (([], b), m) := ⟨h, trivial⟩

theorem machine (hM : M.Keeps pageSize holds) {c : List Call × β} {m m' : Machine}
    (hb : Book pageSize holds others (c, m)) : Book pageSize holds others (c, m') :=
  ⟨hM.machine hb.known, hb.covered⟩

theorem refused (hM : M.Keeps pageSize holds) (hb : Book pageSize holds others s)
    (h : M.traced.map len s = .ok (none, t)) : Book pageSize holds others t := by
  have hsame : mapped others t.1.1 = mapped others s.1.1 := mapped_refused h
  obtain ⟨u, hcall, rfl⟩ := traced_map_ok.1 h
  exact ⟨hsame ▸ hM.refused hb.known hcall, hb.covered.concat trivial⟩

/-- Whole pages are mapped where nothing was. -/
theorem granted (hM : M.Keeps pageSize holds) (hb : Book pageSize holds others s)
    (hlen : pageSize ∣ len) (h : M.traced.map len s = .ok (some start, t)) :
    Book pageSize holds others t ∧
      mapped others t.1.1 = mapped others s.1.1 ∪ (Slice.mk start len).addresses ∧
      start ≠ 0 ∧ pageSize ∣ start ∧ start + len < wordLimit ∧
      ∀ a ∈ mapped others s.1.1, ¬ (Slice.mk start len).Has a := by
  obtain ⟨u, hcall, rfl⟩ := traced_map_ok.1 h
  obtain ⟨found, u', hcall', hserves⟩ := hM.map len (s.1.2, s.2)
  cases hcall.symm.trans hcall'
  obtain ⟨hpage, hend⟩ := hserves start rfl
  obtain ⟨hne, hnew, hknown⟩ := hM.granted hb.known hlen hcall
  have hmore : mapped others (s.1.1 ++ [.map len (some start)]) =
      mapped others s.1.1 ∪ (Slice.mk start len).addresses := mapped_concat ..
  exact ⟨⟨hmore ▸ hknown, hb.covered.concat trivial⟩, hmore, hne, hpage, hend, hnew⟩

/-- Whole pages that are mapped are unmapped, if there are any. -/
theorem trim (hM : M.Keeps pageSize holds) (hb : Book pageSize holds others s)
    (hcov : (Call.unmap addr len).Covered pageSize (mapped others s.1.1))
    (h : M.traced.trim addr len s = .ok ((), t)) :
    Book pageSize holds others t ∧
      mapped others t.1.1 = mapped others s.1.1 \ (Slice.mk addr len).addresses := by
  simp only [Mapper.trim] at h
  split_ifs at h with hpos
  · obtain ⟨u, hcall, rfl⟩ := traced_unmap_ok.1 h
    have hless : mapped others (s.1.1 ++ [.unmap addr len]) =
        mapped others s.1.1 \ (Slice.mk addr len).addresses := mapped_concat ..
    exact ⟨⟨hless ▸ hM.unmapped hb.known hcov hcall, hb.covered.concat hcov⟩, hless⟩
  · obtain ⟨_, rfl⟩ := Act.pure_ok.1 h
    refine ⟨hb, Set.ext fun a => ⟨fun ha => ⟨ha, fun hin => ?_⟩, fun ha => ha.1⟩⟩
    simp only [Slice.mem_addresses] at hin
    omega

end Book
end Mapper

/-! ### Pages of blocks -/

namespace Pages

variable {pageSize len start total aligned : Nat} {others mapped : Set Nat} {out out' : List Slice}
  {block block' : Slice}

/-- As many whole pages as `len` bytes need, in bytes. -/
def wholePages (pageSize len : Nat) : Nat := (len + pageSize - 1) / pageSize * pageSize

/-- The pages on which a block lies. -/
def span (pageSize : Nat) (block : Slice) : Slice := ⟨block.addr, wholePages pageSize block.len⟩

theorem dvd_wholePages (pageSize len : Nat) : pageSize ∣ wholePages pageSize len :=
  Nat.dvd_mul_left _ _

/-- The pages have room for the bytes, and the last page is needed. -/
theorem wholePages_bounds (hpage : 0 < pageSize) (len : Nat) :
    len ≤ wholePages pageSize len ∧ wholePages pageSize len < len + pageSize := by
  have hdiv := Nat.div_add_mod (len + pageSize - 1) pageSize
  have hmod := Nat.mod_lt (len + pageSize - 1) hpage
  rw [Nat.mul_comm] at hdiv
  simp only [wholePages]
  omega

theorem inside_span (hpage : 0 < pageSize) (block : Slice) : block.Inside (span pageSize block) :=
  ⟨Nat.le_refl _, Nat.add_le_add_left (wholePages_bounds hpage block.len).1 _⟩

/-- Mapping a range where nothing is mapped and unmapping what lies before and after a window leaves
the window mapped. -/
theorem unmap_around (hnew : ∀ a ∈ mapped, ¬ (Slice.mk start total).Has a)
    (hge : start ≤ aligned) (hend : aligned + len ≤ start + total) :
    ((mapped ∪ (Slice.mk start total).addresses) \
      (Slice.mk start (aligned - start)).addresses) \
        (Slice.mk (aligned + len) (start + total - (aligned + len))).addresses =
      mapped ∪ (Slice.mk aligned len).addresses := by
  refine Set.ext fun a => ?_
  have hoff := hnew a
  simp only [Slice.Has] at hoff
  simp only [Set.mem_sdiff, Set.mem_union, Slice.mem_addresses]
  by_cases ha : a ∈ mapped
  · have := hoff ha
    simp only [ha, true_or, true_and, iff_true]
    omega
  · simp only [ha, false_or]
    omega

/-- Unmapping the end of a range that is mapped leaves its start mapped. -/
theorem unmap_tail {old new : Nat} (hin : (Slice.mk start old).addresses ⊆ mapped)
    (hle : new ≤ old) :
    mapped \ (Slice.mk (start + new) (old - new)).addresses =
      mapped \ (Slice.mk start old).addresses ∪ (Slice.mk start new).addresses := by
  refine Set.ext fun a => ?_
  have hmem : start ≤ a ∧ a < start + old → a ∈ mapped := fun ha => hin ha
  simp only [Set.mem_sdiff, Set.mem_union, Slice.mem_addresses]
  by_cases ha : a ∈ mapped
  · simp only [ha, true_and]
    omega
  · have := mt hmem ha
    simp only [ha, false_and, false_or, false_iff]
    omega

/-- A block as the page allocator hands it out. -/
structure Placed (pageSize : Nat) (block : Slice) : Prop where
  nonnull : block.addr ≠ 0
  nonempty : 0 < block.len
  page : pageSize ∣ block.addr
  bounded : (span pageSize block).Bounded

/-- Beside `others` the pages of the blocks are mapped and nothing else, and they lie apart. -/
structure Tiles (pageSize : Nat) (others : Set Nat) (out : List Slice) (mapped : Set Nat) :
    Prop where
  mapped : ∀ a, a ∈ mapped ↔ a ∈ others ∨ ∃ block ∈ out, (span pageSize block).Has a
  beside : ∀ block ∈ out, ∀ a ∈ others, ¬ (span pageSize block).Has a
  apart : out.Pairwise fun b b' => (span pageSize b).Disjoint (span pageSize b')
  placed : ∀ block ∈ out, Placed pageSize block

namespace Tiles

theorem nil (pageSize : Nat) (others : Set Nat) : Tiles pageSize others [] others :=
  ⟨fun a => by simp, by simp, .nil, by simp⟩

theorem eq_of_nil (h : Tiles pageSize others [] mapped) : mapped = others :=
  Set.ext fun a => by simpa using h.mapped a

theorem perm (h : Tiles pageSize others out mapped) (hp : out.Perm out') :
    Tiles pageSize others out' mapped where
  mapped a := by simpa only [hp.mem_iff] using h.mapped a
  beside block hb := h.beside block (hp.mem_iff.2 hb)
  apart := (hp.pairwise_iff fun hd => hd.symm).1 h.apart
  placed block hb := h.placed block (hp.mem_iff.2 hb)

theorem push (h : Tiles pageSize others out mapped) (hp : Placed pageSize block)
    (hnew : ∀ a ∈ mapped, ¬ (span pageSize block).Has a) :
    Tiles pageSize others (block :: out) (mapped ∪ (span pageSize block).addresses) where
  mapped a := by
    rw [Set.mem_union, h.mapped, List.exists_mem_cons_iff, or_assoc,
      or_comm (a := ∃ b ∈ out, _)]
    rfl
  beside := List.forall_mem_cons.2 ⟨fun a ha => hnew a ((h.mapped a).2 (.inl ha)), h.beside⟩
  apart := List.pairwise_cons.2
    ⟨fun b hb a ha hba => hnew a ((h.mapped a).2 (.inr ⟨b, hb, hba⟩)) ha, h.apart⟩
  placed := List.forall_mem_cons.2 ⟨hp, h.placed⟩

theorem span_subset (h : Tiles pageSize others out mapped) (hb : block ∈ out) :
    (span pageSize block).addresses ⊆ mapped :=
  fun a ha => (h.mapped a).2 (.inr ⟨block, hb, ha⟩)

theorem pop (h : Tiles pageSize others (block :: out) mapped) :
    Tiles pageSize others out (mapped \ (span pageSize block).addresses) where
  mapped a := by
    obtain ⟨hfirst, _⟩ := List.pairwise_cons.1 h.apart
    rw [Set.mem_sdiff, h.mapped, List.exists_mem_cons_iff]
    constructor
    · rintro ⟨ha | hhere | hout, hoff⟩
      · exact .inl ha
      · exact absurd hhere hoff
      · exact .inr hout
    · rintro (ha | ⟨b, hb, hba⟩)
      · exact ⟨.inl ha, h.beside block List.mem_cons_self a ha⟩
      · exact ⟨.inr (.inr ⟨b, hb, hba⟩), fun hhere => hfirst b hb a hhere hba⟩
  beside b hb := h.beside b (List.mem_cons_of_mem _ hb)
  apart := h.apart.of_cons
  placed b hb := h.placed b (List.mem_cons_of_mem _ hb)

theorem shrink (h : Tiles pageSize others (block :: out) mapped)
    (haddr : block'.addr = block.addr) (hlen : 0 < block'.len)
    (hle : wholePages pageSize block'.len ≤ wholePages pageSize block.len) :
    Tiles pageSize others (block' :: out) (mapped \ (Slice.mk (block.addr +
      wholePages pageSize block'.len) (wholePages pageSize block.len -
        wholePages pageSize block'.len)).addresses) := by
  obtain ⟨hnonnull, _, hdvd, hbounded⟩ := h.placed block List.mem_cons_self
  have hplaced : Placed pageSize block' := by
    refine ⟨haddr ▸ hnonnull, hlen, haddr ▸ hdvd, ?_⟩
    simp only [span, Slice.Bounded] at hbounded ⊢
    omega
  have hinside : (span pageSize block').addresses ⊆ (span pageSize block).addresses := by
    intro a
    simp only [Slice.mem_addresses, span]
    omega
  -- it comes to the same to unmap all pages and to map the first ones again
  have hsame : span pageSize block' = ⟨block.addr, wholePages pageSize block'.len⟩ :=
    congrArg (Slice.mk · _) haddr
  rw [unmap_tail (h.span_subset List.mem_cons_self) hle, ← hsame]
  exact h.pop.push hplaced fun a ha hhas => ha.2 (hinside hhas)

end Tiles

end Pages
end AllocChain
