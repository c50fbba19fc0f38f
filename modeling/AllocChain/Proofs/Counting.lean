import AllocChain.Counting
import AllocChain.Proofs.Service

/-!
What the counting allocator does, call by call, and what its counters say. They may count some
blocks `Beyond` what others count, and they are `Balanced` if they agree with the blocks that are
out. Over an allocator that offers the whole interface the counting allocator offers it too, and its
counters stay balanced (`Counters.service`).
-/

namespace AllocChain

namespace Counters

variable {c c' : Counters} {mem block : Slice} {old new : Nat} {out out' : List Slice}

theorem recordAlloc_ok : c.recordAlloc mem = .ok c' ↔
    (c.allocs + 1 < wordLimit ∧ c.live + 1 < wordLimit ∧ c.liveBytes + mem.len < wordLimit) ∧
      c' = ⟨c.allocs + 1, c.frees, c.live + 1, c.liveBytes + mem.len⟩ := by
  simp only [recordAlloc, Fault.bind_ok, Word.add_eq_ok_iff, Fault.pure_ok]
  constructor
  · rintro ⟨_, ⟨h1, rfl⟩, _, ⟨h2, rfl⟩, _, ⟨h3, rfl⟩, rfl⟩
    exact ⟨⟨h1, h2, h3⟩, rfl⟩
  · rintro ⟨⟨h1, h2, h3⟩, rfl⟩
    exact ⟨_, ⟨h1, rfl⟩, _, ⟨h2, rfl⟩, _, ⟨h3, rfl⟩, rfl⟩

theorem recordFree_ok : c.recordFree mem = .ok c' ↔
    c.frees + 1 < wordLimit ∧
      c' = ⟨c.allocs, c.frees + 1, c.live - 1, c.liveBytes - mem.len⟩ := by
  simp only [recordFree, Fault.bind_ok, Word.add_eq_ok_iff, Fault.pure_ok]
  constructor
  · rintro ⟨_, ⟨h, rfl⟩, rfl⟩
    exact ⟨h, rfl⟩
  · rintro ⟨h, rfl⟩
    exact ⟨_, ⟨h, rfl⟩, rfl⟩

theorem recordResize_ok : c.recordResize old new = .ok c' ↔
    c.liveBytes - old + new < wordLimit ∧
      c' = { c with liveBytes := c.liveBytes - old + new } := by
  simp only [recordResize, Fault.bind_ok, Word.add_eq_ok_iff, Fault.pure_ok]
  constructor
  · rintro ⟨_, ⟨h, rfl⟩, rfl⟩
    exact ⟨h, rfl⟩
  · rintro ⟨h, rfl⟩
    exact ⟨_, ⟨h, rfl⟩, rfl⟩

theorem recordAlloc_allocs (h : c.recordAlloc mem = .ok c') : c'.allocs < wordLimit := by
  obtain ⟨⟨hcount, _⟩, rfl⟩ := recordAlloc_ok.1 h
  exact hcount

/-! ### The counters and the blocks -/

/-- The counters agree with the blocks that are out. -/
structure Balanced (c : Counters) (out : List Slice) : Prop where
  allocs : c.allocs = c.frees + out.length
  live : c.live = out.length
  liveBytes : c.liveBytes = (out.map (·.len)).sum

/-- Beyond what `c₀` counts the counters count the blocks of `out`. -/
structure Beyond (c₀ : Counters) (out : List Slice) (c : Counters) : Prop where
  allocs : c.allocs + c₀.frees = c₀.allocs + c.frees + out.length
  live : c.live = c₀.live + out.length
  liveBytes : c.liveBytes = c₀.liveBytes + (out.map (·.len)).sum

namespace Beyond

variable {c₀ : Counters}

theorem refl (c : Counters) : c.Beyond [] c := ⟨rfl, rfl, rfl⟩

theorem perm (h : c₀.Beyond out c) (hp : out.Perm out') : c₀.Beyond out' c where
  allocs := hp.length_eq ▸ h.allocs
  live := hp.length_eq ▸ h.live
  liveBytes := h.liveBytes.trans (congrArg (c₀.liveBytes + ·) (hp.map (·.len)).sum_nat)

theorem recordAlloc (h : c₀.Beyond out c) (hc : c.recordAlloc mem = .ok c') :
    c₀.Beyond (mem :: out) c' := by
  obtain ⟨_, rfl⟩ := recordAlloc_ok.1 hc
  obtain ⟨h1, h2, h3⟩ := h
  refine ⟨?_, ?_, ?_⟩ <;> simp only [List.length_cons, List.map_cons, List.sum_cons] <;> omega

theorem recordFree (h : c₀.Beyond (mem :: out) c) (hc : c.recordFree mem = .ok c') :
    c₀.Beyond out c' := by
  obtain ⟨_, rfl⟩ := recordFree_ok.1 hc
  obtain ⟨h1, h2, h3⟩ := h
  simp only [List.length_cons, List.map_cons, List.sum_cons] at h1 h2 h3
  refine ⟨?_, ?_, ?_⟩ <;> simp only <;> omega

theorem recordResize (h : c₀.Beyond (mem :: out) c)
    (hc : c.recordResize mem.len block.len = .ok c') : c₀.Beyond (block :: out) c' := by
  obtain ⟨_, rfl⟩ := recordResize_ok.1 hc
  obtain ⟨h1, h2, h3⟩ := h
  simp only [List.length_cons, List.map_cons, List.sum_cons] at h1 h2 h3
  refine ⟨?_, ?_, ?_⟩ <;> simp only [List.length_cons, List.map_cons, List.sum_cons] <;> omega

end Beyond

namespace Balanced

theorem zero : Counters.zero.Balanced [] := ⟨rfl, rfl, rfl⟩

/-- New counters count nothing themselves. -/
theorem iff_beyond : c.Balanced out ↔ Counters.zero.Beyond out c := by
  constructor
  · rintro ⟨h1, h2, h3⟩
    refine ⟨?_, ?_, ?_⟩ <;> simp only [Counters.zero] <;> omega
  · rintro ⟨h1, h2, h3⟩
    simp only [Counters.zero] at h1 h2 h3
    refine ⟨?_, ?_, ?_⟩ <;> omega

theorem perm (h : c.Balanced out) (hp : out.Perm out') : c.Balanced out' :=
  iff_beyond.2 ((iff_beyond.1 h).perm hp)

theorem front (h : c.Balanced out) (hmem : mem ∈ out) : c.Balanced (mem :: out.erase mem) :=
  h.perm (List.perm_cons_erase hmem)

theorem recordAlloc (h : c.Balanced out) (hc : c.recordAlloc mem = .ok c') :
    c'.Balanced (mem :: out) :=
  iff_beyond.2 ((iff_beyond.1 h).recordAlloc hc)

theorem recordFree (h : c.Balanced (mem :: out)) (hc : c.recordFree mem = .ok c') :
    c'.Balanced out :=
  iff_beyond.2 ((iff_beyond.1 h).recordFree hc)

theorem recordResize (h : c.Balanced (mem :: out))
    (hc : c.recordResize mem.len block.len = .ok c') : c'.Balanced (block :: out) :=
  iff_beyond.2 ((iff_beyond.1 h).recordResize hc)

theorem recordAlloc_returns (h : c.Balanced out) (hcount : c.allocs + 1 < wordLimit)
    (hbytes : ((block :: out).map (·.len)).sum < wordLimit) :
    ∃ c', c.recordAlloc block = .ok c' := by
  obtain ⟨h1, h2, h3⟩ := h
  simp only [List.map_cons, List.sum_cons] at hbytes
  exact ⟨_, recordAlloc_ok.2 ⟨⟨hcount, by omega, by omega⟩, rfl⟩⟩

theorem recordFree_returns (h : c.Balanced (block :: out)) (hcount : c.allocs < wordLimit) :
    ∃ c', c.recordFree block = .ok c' := by
  have hallocs := h.allocs
  rw [List.length_cons] at hallocs
  exact ⟨_, recordFree_ok.2 ⟨by omega, rfl⟩⟩

theorem recordResize_returns (h : c.Balanced (mem :: out))
    (hbytes : ((block :: out).map (·.len)).sum < wordLimit) :
    ∃ c', c.recordResize mem.len block.len = .ok c' := by
  have hlive := h.liveBytes
  simp only [List.map_cons, List.sum_cons] at hlive hbytes
  exact ⟨_, recordResize_ok.2 ⟨by omega, rfl⟩⟩

end Balanced

/-! ### What the operations do -/

variable {β : Type} {B : Allocator β} {s t : (Counters × β) × Machine} {size align : Nat}
  {r : Answer}

/-- Asks behind, and counts the block when one was really handed out. -/
def counted (x : Act β Answer) (count : Counters → Slice → Except Fault Counters) :
    Act (Counters × β) Answer := do
  match ← Act.below x with
  | .error e => return .error e
  | .ok block =>
    Act.setOwn (← count (← Act.own) block)
    return .ok block

theorem alloc_eq (B : Allocator β) (size align : Nat) :
    alloc B size align = counted (B.alloc size align) recordAlloc := rfl

theorem resize_eq (B : Allocator β) (mem : Slice) (size align : Nat) :
    resize B mem size align = counted (B.resize mem size align) fun c block =>
      if mem.isNull then c.recordAlloc block
      else if size = 0 then c.recordFree mem
      else c.recordResize mem.len block.len := by
  simp only [resize, counted]
  split_ifs <;> rfl

/-- The counters after an answer, given how a block is counted. -/
def after (c : Counters) (count : Counters → Slice → Except Fault Counters) :
    Answer → Except Fault Counters
  | .error _ => .ok c
  | .ok block => count c block

/-- Whatever is answered behind is the answer, and a refusal is not counted. -/
theorem counted_ok {x : Act β Answer} {count : Counters → Slice → Except Fault Counters} :
    counted x count s = .ok (r, t) ↔ ∃ u c, x (s.1.2, s.2) = .ok (r, u) ∧
      s.1.1.after count r = .ok c ∧ t = ((c, u.1), u.2) := by
  simp only [counted, Act.bind_ok, Act.below_ok]
  constructor
  · rintro ⟨answer, _, ⟨u, hcall, rfl⟩, h⟩
    cases answer with
    | error e =>
      obtain ⟨rfl, rfl⟩ := Act.pure_ok.1 h
      exact ⟨u, s.1.1, hcall, rfl, rfl⟩
    | ok block =>
      simp only [Act.bind_ok, Act.own_ok, Act.lift_ok, Act.setOwn_ok, Act.pure_ok] at h
      obtain ⟨_, _, ⟨rfl, rfl⟩, c, _, ⟨hc, rfl⟩, _, _, rfl, rfl, rfl⟩ := h
      exact ⟨u, c, hcall, hc, rfl⟩
  · rintro ⟨u, c, hcall, hc, rfl⟩
    refine ⟨r, _, ⟨u, hcall, rfl⟩, ?_⟩
    cases r with
    | error e =>
      cases hc
      rfl
    | ok block =>
      refine Act.bind_ok.2 ⟨_, _, Act.own_ok.2 ⟨rfl, rfl⟩, Act.bind_ok.2 ⟨c, _,
        Act.lift_ok.2 ⟨hc, rfl⟩, Act.bind_ok.2 ⟨(), _, Act.setOwn_ok.2 rfl, ?_⟩⟩⟩
      exact Act.pure_ok.2 ⟨rfl, rfl⟩

/-- A request is refused behind, or answered there and counted. -/
theorem alloc_ok (h : alloc B size align s = .ok (r, t)) :
    ∃ u, (∃ e, r = .error e ∧ B.alloc size align (s.1.2, s.2) = .ok (.error e, u) ∧
        t = ((s.1.1, u.1), u.2)) ∨
      ∃ block c, r = .ok block ∧ B.alloc size align (s.1.2, s.2) = .ok (.ok block, u) ∧
        s.1.1.recordAlloc block = .ok c ∧ t = ((c, u.1), u.2) := by
  rw [alloc_eq] at h
  obtain ⟨u, c, hcall, hc, rfl⟩ := counted_ok.1 h
  cases r with
  | error e =>
    cases hc
    exact ⟨u, .inl ⟨e, rfl, hcall, rfl⟩⟩
  | ok block => exact ⟨u, .inr ⟨block, c, rfl, hcall, hc, rfl⟩⟩

theorem free_null (B : Allocator β) (hn : mem.isNull = true) : free B mem = pure () := by
  simp only [free, hn, if_true]

theorem free_counted (hn : mem.isNull = false) : free B mem s = .ok ((), t) ↔
    ∃ u c, B.free mem (s.1.2, s.2) = .ok ((), u) ∧ s.1.1.recordFree mem = .ok c ∧
      t = ((c, u.1), u.2) := by
  simp only [free, hn, Bool.false_eq_true, if_false, Act.bind_ok, Act.below_ok, Act.own_ok,
    Act.lift_ok, Act.setOwn_ok]
  constructor
  · rintro ⟨_, _, ⟨u, hcall, rfl⟩, _, _, ⟨rfl, rfl⟩, c, _, ⟨hc, rfl⟩, rfl⟩
    exact ⟨u, c, hcall, hc, rfl⟩
  · rintro ⟨u, c, hcall, hc, rfl⟩
    exact ⟨(), _, ⟨u, hcall, rfl⟩, _, _, ⟨rfl, rfl⟩, c, _, ⟨hc, rfl⟩, rfl⟩

/-- Null is not passed on; any other slice is given back behind and counted. -/
theorem free_ok (h : free B mem s = .ok ((), t)) :
    (mem.isNull = true ∧ t = s) ∨
      mem.isNull = false ∧ ∃ u c, B.free mem (s.1.2, s.2) = .ok ((), u) ∧
        s.1.1.recordFree mem = .ok c ∧ t = ((c, u.1), u.2) := by
  cases hn : mem.isNull with
  | true =>
    rw [free_null B hn] at h
    exact .inl ⟨rfl, (Act.pure_ok.1 h).2⟩
  | false => exact .inr ⟨rfl, (free_counted hn).1 h⟩

/-- A resize to some bytes is refused behind, or made there and counted as a change of length. -/
theorem resize_ok (hn : mem.isNull = false) (hs : size ≠ 0)
    (h : resize B mem size align s = .ok (r, t)) :
    ∃ u, (∃ e, r = .error e ∧ B.resize mem size align (s.1.2, s.2) = .ok (.error e, u) ∧
        t = ((s.1.1, u.1), u.2)) ∨
      ∃ block c, r = .ok block ∧ B.resize mem size align (s.1.2, s.2) = .ok (.ok block, u) ∧
        s.1.1.recordResize mem.len block.len = .ok c ∧ t = ((c, u.1), u.2) := by
  rw [resize_eq] at h
  obtain ⟨u, c, hcall, hc, rfl⟩ := counted_ok.1 h
  cases r with
  | error e =>
    cases hc
    exact ⟨u, .inl ⟨e, rfl, hcall, rfl⟩⟩
  | ok block =>
    simp only [hn, Bool.false_eq_true, if_false, if_neg hs] at hc
    exact ⟨u, .inr ⟨block, c, rfl, hcall, hc, rfl⟩⟩

theorem resize_null (hn : mem.isNull = true)
    (hB : B.resize mem size align = B.alloc size align) :
    resize B mem size align = alloc B size align := by
  simp only [resize, alloc, hB, hn, if_true]

theorem resize_zero {align : Nat} (hn : mem.isNull = false)
    (hB : B.resize mem 0 align = do
      B.free mem
      return .ok .null) :
    resize B mem 0 align = do
      free B mem
      return .ok .null := by
  funext ⟨⟨c, b⟩, m⟩
  simp only [resize, free, hB, hn, Bool.false_eq_true, if_false, if_true, Act.bind_apply,
    Act.below_apply]
  rcases hfree : B.free mem (b, m) with e | u
  · simp [Except.bind, Except.map]
  · cases hc : c.recordFree mem <;>
      simp [Except.bind, Except.map, hc]

/-! ### The interface -/

/-- The blocks are outstanding behind, and the counters, which are words, agree with them. -/
structure Kept (holds : List Slice → β × Machine → Prop) (out : List Slice)
    (s : (Counters × β) × Machine) : Prop where
  backed : NonNull holds out (s.1.2, s.2)
  balanced : s.1.1.Balanced out
  counted : s.1.1.allocs < wordLimit

variable {holds : List Slice → β × Machine → Prop}

/-- Counting takes nothing away from what is offered behind. -/
theorem service (hB : Service B holds) : Service (allocator B) (Kept holds) where
  supply :=
    { perm := fun hp hh =>
        ⟨hB.nonNull.supply.perm hp hh.backed, hh.balanced.perm hp, hh.counted⟩
      report := fun hh => ⟨hB.nonNull.supply.report hh.backed, hh.balanced, hh.counted⟩
      write := fun hh hw => ⟨hB.nonNull.supply.write hh.backed hw, hh.balanced, hh.counted⟩
      apart := fun hh => hB.nonNull.supply.apart hh.backed
      bounded := fun hh => hB.nonNull.supply.bounded hh.backed
      alloc := by
        intro out s size align block t hh ha
        obtain ⟨u, ⟨_, hbad, _⟩ | ⟨_, c, heq, hcall, hc, rfl⟩⟩ := alloc_ok ha
        · cases hbad
        cases heq
        obtain ⟨hans, hnew⟩ := hB.nonNull.supply.alloc hh.backed hcall
        exact ⟨hans, hnew, hh.balanced.recordAlloc hc, recordAlloc_allocs hc⟩
      alloc_refused := by
        intro out s size align e t hh ha
        obtain ⟨u, ⟨_, _, hcall, rfl⟩ | ⟨_, _, hbad, _⟩⟩ := alloc_ok ha
        · exact ⟨hB.nonNull.supply.alloc_refused hh.backed hcall, hh.balanced, hh.counted⟩
        · cases hbad
      resize := by
        intro out s old size align block t hh hn hs hr
        obtain ⟨u, ⟨_, hbad, _⟩ | ⟨_, c, heq, hcall, hc, rfl⟩⟩ := resize_ok hn hs hr
        · cases hbad
        cases heq
        obtain ⟨hans, hnew⟩ := hB.nonNull.supply.resize hh.backed hn hs hcall
        refine ⟨hans, hnew, hh.balanced.recordResize hc, ?_⟩
        rw [(recordResize_ok.1 hc).2]
        exact hh.counted
      resize_refused := by
        intro out s old size align e t hh hn hs hr
        obtain ⟨u, ⟨_, _, hcall, rfl⟩ | ⟨_, _, hbad, _⟩⟩ := resize_ok hn hs hr
        · exact ⟨hB.nonNull.supply.resize_refused hh.backed hn hs hcall, hh.balanced, hh.counted⟩
        · cases hbad
      free := by
        intro out s block t hh hf
        rcases free_ok hf with ⟨hn, _⟩ | ⟨_, u, c, hcall, hc, rfl⟩
        · exact absurd (beq_iff_eq.1 hn) (hh.backed.2 _ List.mem_cons_self)
        · refine ⟨hB.nonNull.supply.free hh.backed hcall, hh.balanced.recordFree hc, ?_⟩
          rw [(recordFree_ok.1 hc).2]
          exact hh.counted }
  custody :=
    { alloc := by
        intro out s size align r t hh ha
        obtain ⟨u, ⟨_, _, hcall, rfl⟩ | ⟨_, _, _, hcall, _, rfl⟩⟩ := alloc_ok ha <;>
          exact hB.nonNull.custody.alloc hh.backed hcall
      resize := by
        intro out s old size align block t hh hn hs hr
        obtain ⟨u, ⟨_, hbad, _⟩ | ⟨_, _, heq, hcall, _, rfl⟩⟩ := resize_ok hn hs hr
        · cases hbad
        · cases heq
          exact hB.nonNull.custody.resize hh.backed hn hs hcall
      resize_refused := by
        intro out s old size align e t hh hn hs hr
        obtain ⟨u, ⟨_, _, hcall, rfl⟩ | ⟨_, _, hbad, _⟩⟩ := resize_ok hn hs hr
        · exact hB.nonNull.custody.resize_refused hh.backed hn hs hcall
        · cases hbad
      free := by
        intro out s block t hh hf
        rcases free_ok hf with ⟨_, rfl⟩ | ⟨_, u, _, hcall, _, rfl⟩
        · exact .refl _ _
        · exact hB.nonNull.custody.free hh.backed hcall }
  resize_null hn := resize_null hn (hB.resize_null hn)
  resize_zero hn := resize_zero hn (hB.resize_zero hn)
  free_null := by
    intro out s block t hh hn hf
    rcases free_ok hf with ⟨_, rfl⟩ | ⟨hn', _⟩
    · exact ⟨hh, .refl _ _⟩
    · rw [hn] at hn'
      cases hn'

end Counters
end AllocChain
