import AllocChain.Proofs.Counting
import AllocChain.Proofs.Ownership
import AllocChain.Proofs.Scripted

/-!
The counters are exact. Whatever stands behind a counting allocator, and whatever it answers: a
client that resizes and frees only null and what it holds finds its blocks and their bytes counted
after every deed, and nothing is ever taken off that was not counted before (`Counters.Accurate`).
An allocator that draws its memory through a counting one leaves the counters as it found them once
it is destroyed (`Counters.Restored`), whatever its own client did.

Only a free of null is not passed on. So a block that was handed out null stays counted, and it is
the only kind of block that does.
-/

namespace AllocChain

variable {β γ : Type}

/-! ### Clients that name what they hold -/

/-- The deed resizes and frees nothing but null and blocks of `out`. -/
def Deed.Names (out : List Slice) : Deed → Prop
  | .resize block _ _ | .free block => block.isNull = true ∨ block ∈ out
  | _ => True

/-- The deed is not a free of null. -/
def Deed.Counts : Deed → Prop
  | .free block => block.isNull = false
  | _ => True

theorem Deed.not_counts {d : Deed} :
    ¬ d.Counts ↔ ∃ block, d = .free block ∧ block.isNull = true := by
  cases d <;> simp [Deed.Counts]

instance (out : List Slice) : (d : Deed) → Decidable (d.Names out)
  | .alloc .. | .allocZeroed .. | .write .. => isTrue trivial
  | .resize .. | .free _ => inferInstanceAs (Decidable (_ ∨ _))

/-- Does deeds one after the other, as long as they name what is held and end without a fault. -/
def Allocator.follow (A : Allocator γ) :
    List Deed → List Slice → γ × Machine → Option (List Slice × γ × Machine)
  | [], out, s => some (out, s)
  | d :: ds, out, s =>
    if d.Names out then
      match A.perform d s with
      | .ok (r, t) => A.follow ds (d.leaves out r) t
      | .error _ => none
    else none

theorem Allocator.follow_preserves {A : Allocator γ} {inv : List Slice → γ × Machine → Prop}
    (hstep : ∀ {out s d r t}, inv out s → d.Names out → A.perform d s = .ok (r, t) →
      inv (d.leaves out r) t)
    {ds : List Deed} {out out' : List Slice} {s s' : γ × Machine} (hi : inv out s)
    (h : A.follow ds out s = some (out', s')) : inv out' s' := by
  -- the deeds come one by one, so what is held and the state change on the way
  induction ds generalizing out s with
  | nil =>
    cases h
    exact hi
  | cons d ds ih =>
    rw [follow] at h
    by_cases hnames : d.Names out
    · rw [if_pos hnames] at h
      cases hd : A.perform d s with
      | error e => simp [hd] at h
      | ok r =>
        simp only [hd] at h
        exact ih (hstep hi hnames hd) h
    · rw [if_neg hnames] at h
      cases h

namespace Counters

variable {c c' c₀ : Counters} {out : List Slice} {d : Deed} {r : Answer} {B : Allocator β}
  {s t : (Counters × β) × Machine}

/-! ### One deed -/

/-- The counters after a deed and its answer. -/
def record (c : Counters) : Deed → Answer → Except Fault Counters
  | _, .error _ => .ok c
  | .alloc _ _, .ok block | .allocZeroed _ _, .ok block => c.recordAlloc block
  | .resize old size _, .ok block =>
    if old.isNull then c.recordAlloc block
    else if size = 0 then c.recordFree old
    else c.recordResize old.len block.len
  | .free old, .ok _ => if old.isNull then .ok c else c.recordFree old
  | .write _ _, .ok _ => .ok c

theorem allocZeroed_counted {size align : Nat} :
    (allocator B).allocZeroed size align s = .ok (r, t) ↔
      ∃ u c, B.allocZeroed size align (s.1.2, s.2) = .ok (r, u) ∧
        s.1.1.after recordAlloc r = .ok c ∧ t = ((c, u.1), u.2) := by
  have halloc : (allocator B).alloc size align = counted (B.alloc size align) recordAlloc := rfl
  constructor
  · intro h
    rcases allocZeroed_ok h with ⟨e, rfl, ha⟩ | ⟨block, v, rfl, ha, rfl⟩ <;>
      obtain ⟨u, c, hcall, hc, rfl⟩ := counted_ok.1 (halloc ▸ ha)
    · exact ⟨u, c, allocZeroed_refused hcall, hc, rfl⟩
    · exact ⟨_, c, allocZeroed_answered hcall, hc, rfl⟩
  · rintro ⟨u, c, h, hc, rfl⟩
    rcases allocZeroed_ok h with ⟨e, rfl, hcall⟩ | ⟨block, v, rfl, hcall, rfl⟩
    · exact allocZeroed_refused (halloc ▸ counted_ok.2 ⟨u, c, hcall, hc, rfl⟩)
    · exact allocZeroed_answered (halloc ▸ counted_ok.2 ⟨v, c, hcall, hc, rfl⟩)

/-- What a deed does behind is what it does, and it is recorded with its answer. -/
theorem perform_ok (hd : d.Counts) : (allocator B).perform d s = .ok (r, t) ↔
    ∃ u c, B.perform d (s.1.2, s.2) = .ok (r, u) ∧ s.1.1.record d r = .ok c ∧
      t = ((c, u.1), u.2) := by
  cases d with
  | alloc size align =>
    simp only [Allocator.perform, allocator, alloc_eq, counted_ok]
    cases r <;> rfl
  | allocZeroed size align =>
    simp only [Allocator.perform, allocZeroed_counted]
    cases r <;> rfl
  | resize old size align =>
    simp only [Allocator.perform, allocator, resize_eq, counted_ok]
    cases r <;> rfl
  | free old =>
    have hn : old.isNull = false := hd
    simp only [Allocator.perform, allocator, Act.bind_ok, free_counted hn, Act.pure_ok]
    constructor
    · rintro ⟨_, _, ⟨u, c, hcall, hc, rfl⟩, rfl, rfl⟩
      exact ⟨u, c, ⟨(), u, hcall, rfl, rfl⟩, by simpa [record, hn] using hc, rfl⟩
    · rintro ⟨u, c, ⟨_, _, hcall, rfl, rfl⟩, hc, rfl⟩
      exact ⟨(), _, ⟨u, c, hcall, by simpa [record, hn] using hc, rfl⟩, rfl, rfl⟩
  | write addr byte =>
    constructor
    · intro h
      obtain ⟨rfl, rfl⟩ := perform_write_ok h
      exact ⟨_, s.1.1, rfl, rfl, rfl⟩
    · rintro ⟨u, c, h, hc, rfl⟩
      obtain ⟨rfl, rfl⟩ := perform_write_ok h
      cases hc
      rfl

theorem perform_free_null {block : Slice} (hn : block.isNull = true) :
    (allocator B).perform (.free block) s = .ok (.ok .null, s) := by
  simp only [Allocator.perform, allocator, free_null B hn]
  rfl

/-- The counters still agree with the blocks after a deed that names one of them. -/
theorem Balanced.record (h : c.Balanced out) (hnames : d.Names out)
    (hc : c.record d r = .ok c') : c'.Balanced (d.leaves out r) := by
  cases r with
  | error e =>
    cases hc
    cases d <;> exact h
  | ok block =>
    cases d with
    | alloc size align => exact h.recordAlloc hc
    | allocZeroed size align => exact h.recordAlloc hc
    | resize old size align =>
      simp only [Counters.record] at hc
      simp only [Deed.leaves]
      split_ifs at hc ⊢ with hn hs
      · exact h.recordAlloc hc
      · exact (h.front (hnames.resolve_left hn)).recordFree hc
      · exact (h.front (hnames.resolve_left hn)).recordResize hc
    | free old =>
      simp only [Counters.record] at hc
      simp only [Deed.leaves]
      split_ifs at hc ⊢ with hn
      · cases hc
        exact h
      · exact (h.front (hnames.resolve_left hn)).recordFree hc
    | write addr byte =>
      cases hc
      exact h

/-- A deed that names one of the blocks can be recorded, as long as what is counted are words. -/
theorem Balanced.record_returns (h : c.Balanced out) (hnames : d.Names out)
    (hcount : c.allocs + 1 < wordLimit)
    (hbytes : ((d.leaves out r).map (·.len)).sum < wordLimit) : ∃ c', c.record d r = .ok c' := by
  have hallocs : c.allocs < wordLimit := Nat.lt_of_succ_lt hcount
  cases r with
  | error e => cases d <;> exact ⟨c, rfl⟩
  | ok block =>
    cases d with
    | alloc size align => exact h.recordAlloc_returns hcount hbytes
    | allocZeroed size align => exact h.recordAlloc_returns hcount hbytes
    | resize old size align =>
      simp only [Deed.leaves] at hbytes
      simp only [Counters.record]
      split_ifs at hbytes ⊢ with hn hs
      · exact h.recordAlloc_returns hcount hbytes
      · exact (h.front (hnames.resolve_left hn)).recordFree_returns hallocs
      · exact (h.front (hnames.resolve_left hn)).recordResize_returns hbytes
    | free old =>
      simp only [Counters.record]
      split_ifs with hn
      · exact ⟨c, rfl⟩
      · exact (h.front (hnames.resolve_left hn)).recordFree_returns hallocs
    | write addr byte => exact ⟨c, rfl⟩

/-- One deed of a client that names what it holds. -/
theorem Balanced.perform (h : s.1.1.Balanced out) (hnames : d.Names out)
    (hd : (allocator B).perform d s = .ok (r, t)) : t.1.1.Balanced (d.leaves out r) := by
  by_cases hcounts : d.Counts
  · obtain ⟨u, c, _, hc, rfl⟩ := (perform_ok hcounts).1 hd
    exact h.record hnames hc
  · obtain ⟨block, rfl, hn⟩ := Deed.not_counts.1 hcounts
    rw [perform_free_null hn] at hd
    cases hd
    simpa only [Deed.leaves, hn, if_true] using h

/-- What the counters say to a client that holds the blocks of `out`. -/
structure Accurate (B : Allocator β) (out : List Slice) (s : (Counters × β) × Machine) : Prop where
  /-- The blocks that are out are counted, and so are their bytes. -/
  balanced : s.1.1.Balanced out
  /-- What the next free or resize takes off has been counted. -/
  covered : ∀ block ∈ out, 1 ≤ s.1.1.live ∧ block.len ≤ s.1.1.liveBytes
  /-- What is refused is not counted, -/
  refused : ∀ d e t, (allocator B).perform d s = .ok (.error e, t) → t.1.1 = s.1.1
  /-- and a free of null does nothing. -/
  null : ∀ block, block.isNull = true → (allocator B).free block s = .ok ((), s)
  /-- What is answered behind gets the same answer, as long as what is counted are words. -/
  answered : ∀ d r u, d.Names out → d.Counts → B.perform d (s.1.2, s.2) = .ok (r, u) →
    s.1.1.allocs + 1 < wordLimit → ((d.leaves out r).map (·.len)).sum < wordLimit →
    ∃ c, (allocator B).perform d s = .ok (r, ((c, u.1), u.2)) ∧ c.Balanced (d.leaves out r)

theorem Balanced.accurate (h : s.1.1.Balanced out) : Accurate B out s where
  balanced := h
  covered := by
    intro block hb
    obtain ⟨_, hlive, hbytes⟩ := h.front hb
    rw [List.length_cons] at hlive
    rw [List.map_cons, List.sum_cons] at hbytes
    omega
  refused := by
    intro d e t hd
    by_cases hcounts : d.Counts
    · obtain ⟨u, c, _, hc, rfl⟩ := (perform_ok hcounts).1 hd
      cases hc
      rfl
    · obtain ⟨block, rfl, hn⟩ := Deed.not_counts.1 hcounts
      rw [perform_free_null hn] at hd
      cases hd
  null block hn := by
    change free B block s = _
    rw [free_null B hn]
    rfl
  answered := by
    intro d r u hnames hcounts hcall hcount hbytes
    obtain ⟨c, hc⟩ := h.record_returns hnames hcount hbytes
    exact ⟨c, (perform_ok hcounts).2 ⟨u, c, hcall, hc, rfl⟩, h.record hnames hc⟩

/-- A client that names what it holds finds its blocks counted. -/
theorem accurate_of_follow {b : β} {m : Machine} {ds : List Deed}
    (h : (allocator B).follow ds [] ((.zero, b), m) = some (out, s)) : Accurate B out s :=
  (Allocator.follow_preserves Balanced.perform Balanced.zero h).accurate

end Counters

/-! ### Allocators on top -/

/-- No block that is handed out from `start` on is null, and a ledger says so. It may hold some
blocks already, and it does not look at the machine. -/
def Allocator.NeverNull (B : Allocator β) (start : β × Machine) : Prop :=
  ∃ holds others, Detached holds ∧ Ledger B Slice.Present holds ∧ holds others start

theorem ScriptedHeap.neverNull {h : ScriptedHeap} {m : Machine} (hh : h.Honest)
    (hn : h.next ≤ h.limit) : ScriptedHeap.allocator.NeverNull (h, m) :=
  ⟨Holds, [], fun _ _ _ _ hheld => hheld, service.keeper.supply.toLedger, .nil hh hn⟩

namespace Counters

variable {B : Allocator β} {fit : Nat → Nat → Slice → Prop}
  {holds : List Slice → β × Machine → Prop} {others : List Slice} {c₀ : Counters}
  {start : β × Machine}

/-- Beyond what `c₀` counts the counters count the blocks of `out`, and blocks that were handed out
null and could not be given back. All of these fit, and behind they are held beside `others`. -/
def Tallied (fit : Nat → Nat → Slice → Prop) (holds : List Slice → β × Machine → Prop)
    (others : List Slice) (c₀ : Counters) (out : List Slice) (s : (Counters × β) × Machine) :
    Prop :=
  ∃ lost : List Slice, (∀ block ∈ lost, block.isNull = true) ∧
    (∀ block ∈ out ++ lost, ∃ size align, fit size align block) ∧
    holds (out ++ lost ++ others) (s.1.2, s.2) ∧ c₀.Beyond (out ++ lost) s.1.1

theorem Tallied.nil (fit : Nat → Nat → Slice → Prop) (c₀ : Counters) (h : holds others start) :
    Tallied fit holds others c₀ [] ((c₀, start.1), start.2) :=
  ⟨[], by simp, by simp, h, .refl c₀⟩

theorem Tallied.detached (hoff : Detached holds) : Detached (Tallied fit holds others c₀) := by
  rintro out b m m' ⟨lost, hnull, hfit, hheld, hcount⟩
  exact ⟨lost, hnull, hfit, hoff hheld, hcount⟩

/-- With the counters a ledger behind is a ledger of the counting allocator. -/
theorem Tallied.ledger (hB : Ledger B fit holds) (others : List Slice) (c₀ : Counters) :
    Ledger (allocator B) fit (Tallied fit holds others c₀) where
  perm := by
    rintro out out' s hp ⟨lost, hnull, hfit, hheld, hcount⟩
    have hall := hp.append_right lost
    exact ⟨lost, hnull, fun block hb => hfit block (hall.mem_iff.2 hb),
      hB.perm (hall.append_right others) hheld, hcount.perm hall⟩
  report := by
    rintro out b m es ⟨lost, hnull, hfit, hheld, hcount⟩
    exact ⟨lost, hnull, hfit, hB.report hheld, hcount⟩
  alloc := by
    rintro out s size align block t ⟨lost, hnull, hfit, hheld, hcount⟩ ha
    obtain ⟨u, ⟨_, hbad, _⟩ | ⟨_, c, heq, hcall, hc, rfl⟩⟩ := alloc_ok ha
    · cases hbad
    cases heq
    obtain ⟨hans, hnew⟩ := hB.alloc hheld hcall
    exact ⟨hans, lost, hnull, List.forall_mem_cons.2 ⟨⟨size, align, hans⟩, hfit⟩, hnew,
      hcount.recordAlloc hc⟩
  alloc_refused := by
    rintro out s size align e t ⟨lost, hnull, hfit, hheld, hcount⟩ ha
    obtain ⟨u, ⟨_, _, hcall, rfl⟩ | ⟨_, _, hbad, _⟩⟩ := alloc_ok ha
    · exact ⟨lost, hnull, hfit, hB.alloc_refused hheld hcall, hcount⟩
    · cases hbad
  resize := by
    rintro out s old size align block t ⟨lost, hnull, hfit, hheld, hcount⟩ hn hs hr
    obtain ⟨u, ⟨_, hbad, _⟩ | ⟨_, c, heq, hcall, hc, rfl⟩⟩ := resize_ok hn hs hr
    · cases hbad
    cases heq
    obtain ⟨hans, hnew⟩ := hB.resize hheld hn hs hcall
    exact ⟨hans, lost, hnull,
      List.forall_mem_cons.2 ⟨⟨size, align, hans⟩, (List.forall_mem_cons.1 hfit).2⟩, hnew,
      hcount.recordResize hc⟩
  resize_refused := by
    rintro out s old size align e t ⟨lost, hnull, hfit, hheld, hcount⟩ hn hs hr
    obtain ⟨u, ⟨_, _, hcall, rfl⟩ | ⟨_, _, hbad, _⟩⟩ := resize_ok hn hs hr
    · exact ⟨lost, hnull, hfit, hB.resize_refused hheld hn hs hcall, hcount⟩
    · cases hbad
  free := by
    rintro out s block t ⟨lost, hnull, hfit, hheld, hcount⟩ hf
    rcases free_ok hf with ⟨hn, rfl⟩ | ⟨_, u, c, hcall, hc, rfl⟩
    · -- a null block is not passed on, so it stays counted, and held behind
      have hmove : (block :: out ++ lost).Perm (out ++ block :: lost) := List.perm_middle.symm
      exact ⟨block :: lost, List.forall_mem_cons.2 ⟨hn, hnull⟩,
        fun b hb => hfit b (hmove.mem_iff.2 hb), hB.perm (hmove.append_right others) hheld,
        hcount.perm hmove⟩
    · exact ⟨lost, hnull, (List.forall_mem_cons.1 hfit).2, hB.free hheld hcall,
        hcount.recordFree hc⟩

/-- Everything was given back that can be. Beyond what `c₀` counts only blocks are counted that were
handed out null; if no such block is ever handed out, as many blocks and bytes are out as before. -/
structure Restored (B : Allocator β) (start : β × Machine) (c₀ c : Counters) : Prop where
  beyond : ∃ lost : List Slice, (∀ block ∈ lost, block.isNull = true) ∧ c₀.Beyond lost c
  returned : B.NeverNull start → c.live = c₀.live ∧ c.liveBytes = c₀.liveBytes

/-- If with every ledger nothing is held any more that can be given back, the counters are back. -/
theorem Restored.of_ledgers {s : (Counters × β) × Machine}
    (h : ∀ fit holds others, Detached holds → Ledger B fit holds → holds others start →
      Tallied fit holds others c₀ [] s) : Restored B start c₀ s.1.1 where
  beyond := by
    obtain ⟨lost, hnull, _, _, hcount⟩ :=
      h Slice.Any _ [] (fun _ _ _ _ _ => trivial) (.blank B) trivial
    exact ⟨lost, hnull, hcount⟩
  returned := by
    rintro ⟨holds, others, hoff, hB, hstart⟩
    obtain ⟨lost, hnull, hfit, _, hcount⟩ := h Slice.Present holds others hoff hB hstart
    obtain rfl : lost = [] := by
      refine List.eq_nil_iff_forall_not_mem.2 fun block hb => ?_
      obtain ⟨_, _, hpresent⟩ := hfit block hb
      exact hpresent (beq_iff_eq.1 (hnull block hb))
    exact ⟨hcount.live, hcount.liveBytes⟩

end Counters

theorem exists_run_of_play {L : Type} {A : Allocator (L × Counters × β)}
    {destroy : Act (L × Counters × β) Unit} {sweeps : List (Act (L × Counters × β) Unit)}
    {rule : List (Lease (L × Counters × β)) → Deed → Prop} [∀ live d, Decidable (rule live d)]
    {ds : List Deed} {start : (L × Counters × β) × Machine} {c : Counters}
    (h : ((A.play rule ds [] start).bind fun p => (destroy p.2).toOption.map fun _ => p.2.1.2.1) =
      some c) :
    ∃ live s t, Run A sweeps rule start live s ∧ s.1.2.1 = c ∧ destroy s = .ok ((), t) := by
  obtain ⟨⟨live, s⟩, hplay, h⟩ := Option.bind_eq_some_iff.1 h
  obtain ⟨⟨_, t⟩, hdestroy, hc⟩ := Option.map_eq_some_iff.1 h
  exact ⟨live, s, t, Run.start.play hplay, hc, Act.ok_of_toOption hdestroy⟩

/-- Over every allocator the counters of a client that names what it holds are exact after every
deed. And whatever a client does with a general-purpose allocator, an arena or a slab pool over
counters that have counted something already: once it is destroyed, nothing is counted beyond that,
except for blocks that were handed out null. -/
theorem counters_exact {β : Type} {B : Allocator β} :
    (∀ {b : β} {m : Machine} {ds : List Deed} {out : List Slice} {s : (Counters × β) × Machine},
      (Counters.allocator B).follow ds [] ((.zero, b), m) = some (out, s) →
      Counters.Accurate B out s) ∧
    (∀ {c₀ : Counters} {b : β} {m : Machine} {n : Nat}
      {rule : List (Lease (GeneralPurpose × Counters × β)) → Deed → Prop}
      {live : List (Lease (GeneralPurpose × Counters × β))}
      {s t : (GeneralPurpose × Counters × β) × Machine},
      Run (GeneralPurpose.allocator (Counters.allocator B))
        [GeneralPurpose.destroy (Counters.allocator B)] rule
        ((GeneralPurpose.new n, c₀, b), m) live s →
      GeneralPurpose.destroy (Counters.allocator B) s = .ok ((), t) →
      Counters.Restored B (b, m) c₀ t.1.2.1) ∧
    (∀ {c₀ : Counters} {b : β} {m : Machine} {n : Nat}
      {rule : List (Lease (Arena × Counters × β)) → Deed → Prop}
      {live : List (Lease (Arena × Counters × β))} {s t : (Arena × Counters × β) × Machine},
      Run (Arena.allocator (Counters.allocator B))
        [Arena.reset (Counters.allocator B), Arena.destroy (Counters.allocator B)] rule
        ((Arena.new n, c₀, b), m) live s →
      Arena.destroy (Counters.allocator B) s = .ok ((), t) →
      Counters.Restored B (b, m) c₀ t.1.2.1) ∧
    ∀ {c₀ : Counters} {b : β} {m : Machine} {n : Nat}
      {rule : List (Lease (SlabPool × Counters × β)) → Deed → Prop}
      {live : List (Lease (SlabPool × Counters × β))} {s t : (SlabPool × Counters × β) × Machine},
      Run (SlabPool.allocator (Counters.allocator B)) [SlabPool.destroy (Counters.allocator B)] rule
        ((SlabPool.new n, c₀, b), m) live s →
      SlabPool.destroy (Counters.allocator B) s = .ok ((), t) →
      Counters.Restored B (b, m) c₀ t.1.2.1 := by
  refine ⟨Counters.accurate_of_follow, fun {c₀ _ _} _ _ _ _ t hrun hd => ?_,
    fun {c₀ _ _} _ _ _ _ t hrun hd => ?_, fun {c₀ _ _} _ _ _ _ t hrun hd => ?_⟩ <;>
    refine .of_ledgers (s := (t.1.2, t.2)) fun fit holds others hoff hB hstart => ?_ <;>
    have hC := Counters.Tallied.ledger hB others c₀ <;>
    have hnew := Counters.Tallied.nil fit c₀ hstart
  · have howns := GeneralPurpose.owns_of_run hC (.detached hoff) hnew hrun
    exact (GeneralPurpose.destroy_ok hC hd howns.1).2
  · have howns := Arena.owns_of_run hC (.detached hoff) hnew (fun _ => List.mem_pair.1) hrun
    exact (Arena.destroy_ok hC hd howns.1).2
  · have howns := SlabPool.owns_of_run hC (.detached hoff) hnew hrun
    exact (SlabPool.destroy_ok hC hd howns.1).2

/-- A client of counters over a heap, which asks for too much and frees null, and a client of each
allocator that stands on counters with three blocks and thirty bytes. -/
theorem counters_exact_of_four_clients :
    (∃ s, (Counters.allocator ScriptedHeap.allocator).follow
        [.alloc 10 1, .resize ⟨0, 0⟩ 20 1, .resize ⟨4106, 20⟩ 50 1, .alloc 2000 1, .free ⟨0, 7⟩,
          .free ⟨4096, 10⟩] []
        ((.zero, ⟨0, 4096, 1024, [], none, 0, 0, 0, 0, 0, 0⟩), ⟨.zero, [], []⟩) =
          some ([⟨4126, 50⟩], s) ∧
      s.1.1 = ⟨2, 1, 1, 50⟩ ∧ Counters.Accurate ScriptedHeap.allocator [⟨4126, 50⟩] s) ∧
    (∃ live s t, Run (GeneralPurpose.allocator (Counters.allocator ScriptedHeap.allocator))
        [GeneralPurpose.destroy (Counters.allocator ScriptedHeap.allocator)] Disciplined
        ((GeneralPurpose.new 64, ⟨5, 2, 3, 30⟩, ⟨0, 4096, 1024, [], none, 0, 0, 0, 0, 0, 0⟩),
          ⟨.zero, [], []⟩) live s ∧
      s.1.2.1 = ⟨7, 2, 5, 294⟩ ∧
      GeneralPurpose.destroy (Counters.allocator ScriptedHeap.allocator) s = .ok ((), t) ∧
      t.1.2.1.live = 3 ∧ t.1.2.1.liveBytes = 30) ∧
    (∃ live s t, Run (Arena.allocator (Counters.allocator ScriptedHeap.allocator))
        [Arena.reset (Counters.allocator ScriptedHeap.allocator),
          Arena.destroy (Counters.allocator ScriptedHeap.allocator)] Disciplined
        ((Arena.new 64, ⟨5, 2, 3, 30⟩, ⟨0, 4096, 1024, [], none, 0, 0, 0, 0, 0, 0⟩),
          ⟨.zero, [], []⟩) live s ∧
      s.1.2.1 = ⟨7, 2, 5, 158⟩ ∧
      Arena.destroy (Counters.allocator ScriptedHeap.allocator) s = .ok ((), t) ∧
      t.1.2.1.live = 3 ∧ t.1.2.1.liveBytes = 30) ∧
    ∃ live s t, Run (SlabPool.allocator (Counters.allocator ScriptedHeap.allocator))
        [SlabPool.destroy (Counters.allocator ScriptedHeap.allocator)] Disciplined
        ((SlabPool.new 64, ⟨5, 2, 3, 30⟩, ⟨0, 4096, 1024, [], none, 0, 0, 0, 0, 0, 0⟩),
          ⟨.zero, [], []⟩) live s ∧
      s.1.2.1 = ⟨7, 2, 5, 158⟩ ∧
      SlabPool.destroy (Counters.allocator ScriptedHeap.allocator) s = .ok ((), t) ∧
      t.1.2.1.live = 3 ∧ t.1.2.1.liveBytes = 30 := by
  have hfollow : ((Counters.allocator ScriptedHeap.allocator).follow
      [.alloc 10 1, .resize ⟨0, 0⟩ 20 1, .resize ⟨4106, 20⟩ 50 1, .alloc 2000 1, .free ⟨0, 7⟩,
        .free ⟨4096, 10⟩] []
      ((.zero, ⟨0, 4096, 1024, [], none, 0, 0, 0, 0, 0, 0⟩), ⟨.zero, [], []⟩)).map
        (fun p => (p.1, p.2.1.1)) = some ([⟨4126, 50⟩], ⟨2, 1, 1, 50⟩) := by
    decide +kernel
  have hgeneral : ((GeneralPurpose.allocator (Counters.allocator ScriptedHeap.allocator)).play
      Disciplined [.alloc 10 8, .alloc 100 16, .resize ⟨4160, 100⟩ 200 16] []
      ((GeneralPurpose.new 64, ⟨5, 2, 3, 30⟩, ⟨0, 4096, 1024, [], none, 0, 0, 0, 0, 0, 0⟩),
        ⟨.zero, [], []⟩)).bind (fun p => (GeneralPurpose.destroy
          (Counters.allocator ScriptedHeap.allocator) p.2).toOption.map fun _ => p.2.1.2.1) =
        some ⟨7, 2, 5, 294⟩ := by
    decide +kernel
  have harena : ((Arena.allocator (Counters.allocator ScriptedHeap.allocator)).play
      Disciplined [.alloc 40 8, .alloc 40 8, .free ⟨4104, 40⟩] []
      ((Arena.new 64, ⟨5, 2, 3, 30⟩, ⟨0, 4096, 1024, [], none, 0, 0, 0, 0, 0, 0⟩),
        ⟨.zero, [], []⟩)).bind (fun p => (Arena.destroy
          (Counters.allocator ScriptedHeap.allocator) p.2).toOption.map fun _ => p.2.1.2.1) =
        some ⟨7, 2, 5, 158⟩ := by
    decide +kernel
  have hslabs : ((SlabPool.allocator (Counters.allocator ScriptedHeap.allocator)).play
      Disciplined [.alloc 40 8, .alloc 40 8] []
      ((SlabPool.new 64, ⟨5, 2, 3, 30⟩, ⟨0, 4096, 1024, [], none, 0, 0, 0, 0, 0, 0⟩),
        ⟨.zero, [], []⟩)).bind (fun p => (SlabPool.destroy
          (Counters.allocator ScriptedHeap.allocator) p.2).toOption.map fun _ => p.2.1.2.1) =
        some ⟨7, 2, 5, 158⟩ := by
    decide +kernel
  have hnever : ScriptedHeap.allocator.NeverNull
      (⟨0, 4096, 1024, [], none, 0, 0, 0, 0, 0, 0⟩, ⟨.zero, [], []⟩) :=
    ScriptedHeap.neverNull
      ⟨rfl, rfl, Nat.succ_pos 4095, show 4096 + 1024 < wordLimit by decide⟩ (Nat.zero_le _)
  obtain ⟨⟨out, s⟩, hs, heq⟩ := Option.map_eq_some_iff.1 hfollow
  obtain ⟨rfl, hcounters⟩ := Prod.mk.inj heq
  obtain ⟨live₁, s₁, t₁, hrun₁, hc₁, hd₁⟩ := exists_run_of_play hgeneral
  obtain ⟨live₂, s₂, t₂, hrun₂, hc₂, hd₂⟩ := exists_run_of_play harena
  obtain ⟨live₃, s₃, t₃, hrun₃, hc₃, hd₃⟩ := exists_run_of_play hslabs
  have hback₁ := (counters_exact.2.1 hrun₁ hd₁).returned hnever
  have hback₂ := (counters_exact.2.2.1 hrun₂ hd₂).returned hnever
  have hback₃ := (counters_exact.2.2.2 hrun₃ hd₃).returned hnever
  exact ⟨⟨s, hs, hcounters, counters_exact.1 hs⟩, ⟨live₁, s₁, t₁, hrun₁, hc₁, hd₁, hback₁⟩,
    ⟨live₂, s₂, t₂, hrun₂, hc₂, hd₂, hback₂⟩, ⟨live₃, s₃, t₃, hrun₃, hc₃, hd₃, hback₃⟩⟩

end AllocChain
