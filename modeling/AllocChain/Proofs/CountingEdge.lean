import AllocChain.Proofs.CountingTwins
import AllocChain.Proofs.Edges

/-!
Just when a counting allocator breaks off. The blocks that are out lie apart, so their bytes are
never more than the words, and there are no more of them than requests that were answered; so the
number of these is the only one that can be too large (`Counters.breaksAt`).
-/

namespace AllocChain.Counters

variable {β : Type} {B : Allocator β} {E : Edges β} {holds : List Slice → β × Machine → Prop}
  {c : Counters} {s : (Counters × β) × Machine} {out : List Slice} {block : Slice}
  {fault : Fault} {cause : Breakdown → Prop}

/-- The edges of a counting allocator over `B`, whose edges are `E`: the number of answered requests
is no word any more. -/
def edges (B : Allocator β) (E : Edges β) : Edges (Counters × β) where
  alloc size align s brk := E.alloc size align (s.1.2, s.2) brk ∨
    wordLimit ≤ s.1.1.allocs + 1 ∧ ∃ block u,
      B.alloc size align (s.1.2, s.2) = .ok (.ok block, u) ∧ brk = u.2.breakOff .addOverflow
  resize block size align s := E.resize block size align (s.1.2, s.2)

theorem Balanced.recordAlloc_eq_error_iff (h : c.Balanced out)
    (hbytes : ((block :: out).map (·.len)).sum < wordLimit) :
    c.recordAlloc block = .error fault ↔ wordLimit ≤ c.allocs + 1 ∧ fault = .addOverflow := by
  by_cases hcount : c.allocs + 1 < wordLimit
  · obtain ⟨c', hc⟩ := h.recordAlloc_returns hcount hbytes
    simp [hc, hcount]
  · have hmany : c.recordAlloc block = .error .addOverflow := by
      simp [Counters.recordAlloc, Word.add, hcount, bind, Except.bind]
    simp [hmany, Nat.not_lt.1 hcount, eq_comm]

/-- A call that is counted breaks off as the call does, or where the answer cannot be counted. -/
theorem counted_breaksJust {x : Act β Answer} {count : Counters → Slice → Except Fault Counters}
    (hx : x.BreaksJust cause (s.1.2, s.2)) : (counted x count).BreaksJust
      (fun brk => cause brk ∨ ∃ block u fault, x (s.1.2, s.2) = .ok (.ok block, u) ∧
        count s.1.1 block = .error fault ∧ brk = u.2.breakOff fault) s := by
  obtain ⟨⟨c, b⟩, m⟩ := s
  intro brk
  simp only
  rw [← hx brk]
  rcases hcall : x (b, m) with brk' | ⟨e | block, b', m'⟩
  · simp [counted, hcall, Except.bind, Except.map]
  · simp [counted, hcall, Except.bind, Except.map]
  · cases hcount : count c block with
    | ok c' => simp [counted, hcall, hcount, Except.bind, Except.map]
    | error fault => simp [counted, hcall, hcount, Except.bind, Except.map, eq_comm]

/-- A counting allocator breaks off as the one behind does, and where it cannot count. -/
theorem breaksAt (hB : Service B holds) (hE : B.BreaksAt E holds) :
    (allocator B).BreaksAt (edges B E) (Kept holds) where
  alloc {out s} size align hh := by
    change (alloc B size align).BreaksJust _ s
    rw [alloc_eq]
    refine (counted_breaksJust (hE.alloc size align hh.backed.1)).congr fun brk =>
      or_congr_right ?_
    have hcounts : ∀ {block u fault}, B.alloc size align (s.1.2, s.2) = .ok (.ok block, u) →
        (s.1.1.recordAlloc block = .error fault ↔
          wordLimit ≤ s.1.1.allocs + 1 ∧ fault = .addOverflow) := fun ha =>
      hh.balanced.recordAlloc_eq_error_iff
        (hB.supply.sum_len_lt (hB.supply.alloc hh.backed.1 ha).2)
    constructor
    · rintro ⟨block, u, fault, ha, hcount, rfl⟩
      obtain ⟨hmany, rfl⟩ := (hcounts ha).1 hcount
      exact ⟨hmany, block, u, ha, rfl⟩
    · rintro ⟨hmany, block, u, ha, rfl⟩
      exact ⟨block, u, _, ha, (hcounts ha).2 ⟨hmany, rfl⟩, rfl⟩
  resize {out s old size} align hh hs := by
    have hn := Slice.isNull_eq_false.2 (hh.backed.2 old List.mem_cons_self)
    change (resize B old size align).BreaksJust _ s
    rw [resize_eq]
    simp only [hn, Bool.false_eq_true, if_false, if_neg hs]
    refine (counted_breaksJust (hE.resize align hh.backed.1 hs)).congr fun brk =>
      or_iff_left ?_
    rintro ⟨block, u, fault, hr, hcount, _⟩
    obtain ⟨c, hc⟩ := hh.balanced.recordResize_returns
      (hB.supply.sum_len_lt (hB.supply.resize hh.backed.1 hn hs hr).2)
    cases hc.symm.trans hcount
  free {out s block} hh := by
    have hn := Slice.isNull_eq_false.2 (hh.backed.2 block List.mem_cons_self)
    obtain ⟨u, hu⟩ := hE.free hh.backed.1
    obtain ⟨c, hc⟩ := hh.balanced.recordFree_returns hh.counted
    exact ⟨_, (free_counted hn).2 ⟨u, c, hu, hc, rfl⟩⟩

end AllocChain.Counters
