import AllocChain.Proofs.Lease
import AllocChain.Proofs.Platform.Mapping

/-!
What the operations of the page allocator do, case by case, when they end without a fault. A request
maps the pages that it needs, or a larger range of which it unmaps what lies around an aligned
window (`Pages.Served`); a resize unmaps the last pages of a block, or moves it (`Pages.Adjusted`).
A refusal leaves nothing behind (`Pages.perform_refused`), and a deed breaks off only where a size
cannot be rounded up (`Pages.perform_breaksOnly`).
-/

namespace AllocChain

/-- The deed asks for a size at the edge. -/
def Deed.AtEdge (pageSize : Nat) : Deed → Prop
  | .alloc size _ | .allocZeroed size _ | .resize _ size _ => Pages.AtEdge pageSize size
  | _ => False

namespace Pages

open Word Mapper

variable {β : Type} {M : Mapper β} {k j size align len : Nat} {block mem : Slice}

/-! ### Lengths -/

theorem round_eq_some {n : Nat} :
    round (2 ^ k) len = .ok (some n) ↔ len + 2 ^ k < wordLimit ∧ n = wholePages (2 ^ k) len := by
  rw [round, alignUp?_two_pow]
  split_ifs with hword
  · simp [wholePages, hword, eq_comm]
  · simp [hword]
  · simp [hword]

/-- The pages of a block that was handed out can be counted. -/
theorem Placed.round (h : Placed (2 ^ k) block) :
    round (2 ^ k) block.len = .ok (some (wholePages (2 ^ k) block.len)) := by
  have hpage := Nat.le_of_dvd (Nat.pos_of_ne_zero h.nonnull) h.page
  have hlen := (wholePages_bounds (Nat.two_pow_pos k) block.len).1
  have hbounded : block.addr + wholePages (2 ^ k) block.len < wordLimit := h.bounded
  exact round_eq_some.2 ⟨by omega, rfl⟩

/-! ### What the operations do -/

section

variable {s t : β × Machine} {r : Answer} {e : AllocError}

/-- How a request is served: not at all, after a refusal, by as many pages as it needs, or by a
window of more. -/
inductive Served (M : Mapper β) (pageSize size align : Nat) (s : β × Machine) :
    Answer → β × Machine → Prop
  | denied {e : AllocError} : Served M pageSize size align s (.error e) s
  | refused {e : AllocError} {len t} : M.map len s = .ok (none, t) →
      Served M pageSize size align s (.error e) t
  | mapped {addr t es} : align ≤ pageSize →
      M.map (wholePages pageSize size) s = .ok (some addr, t) →
      Served M pageSize size align s (.ok ⟨addr, size⟩) (t.1, t.2.report es)
  | trimmed {total start aligned t u v es} : pageSize < align →
      total = wholePages pageSize size + (align - pageSize) → M.map total s = .ok (some start, t) →
      align ∣ aligned → start ≤ aligned → aligned + wholePages pageSize size ≤ start + total →
      M.trim start (aligned - start) t = .ok ((), u) →
      M.trim (aligned + wholePages pageSize size)
        (start + total - (aligned + wholePages pageSize size)) u = .ok ((), v) →
      Served M pageSize size align s (.ok ⟨aligned, size⟩) (v.1, v.2.report es)

/-- A window that is mapped for has room, so the larger mapping is never kept. -/
theorem serveOverAligned_ok (hM : M.Serves (2 ^ k)) (hs : 0 < size) (hlt : 2 ^ k < 2 ^ j)
    (h : serveOverAligned M (2 ^ k) (wholePages (2 ^ k) size) size (2 ^ j) s = .ok (r, t)) :
    Served M (2 ^ k) size (2 ^ j) s r t := by
  simp only [serveOverAligned] at h
  cases htotal : add? (wholePages (2 ^ k) size) (2 ^ j - 2 ^ k) with
  | none =>
    simp only [htotal, Act.pure_ok] at h
    obtain ⟨rfl, rfl⟩ := h
    exact .denied
  | some total =>
    obtain ⟨_, rfl⟩ := add?_eq_some_iff.1 htotal
    simp only [htotal] at h
    obtain ⟨found, u, hmap, h⟩ := Act.bind_ok.1 h
    cases found with
    | none =>
      obtain ⟨rfl, rfl⟩ := Act.pure_ok.1 h
      exact .refused hmap
    | some start =>
      obtain ⟨_, _, hmap', hgood⟩ := hM.map (wholePages (2 ^ k) size + (2 ^ j - 2 ^ k)) s
      cases hmap.symm.trans hmap'
      obtain ⟨hstart, hend⟩ := hgood start rfl
      have hkj : k ≤ j := (Nat.pow_le_pow_iff_right Nat.one_lt_two).1 (Nat.le_of_lt hlt)
      have hlen : 2 ^ k ≤ wholePages (2 ^ k) size :=
        Nat.le_of_dvd (Nat.lt_of_lt_of_le hs (wholePages_bounds (Nat.two_pow_pos k) size).1)
          (dvd_wholePages _ _)
      obtain ⟨aligned, hup, hdvd, hge, hwindow⟩ := window hkj hlen hstart hend
      simp only [Act.bind_ok, Act.lift_ok, hup] at h
      obtain ⟨_, _, ⟨hfound, rfl⟩, h⟩ := h
      cases hfound
      simp only [Act.bind_ok, Act.lift_ok, Act.emit_ok, Act.pure_ok, sub_of_le hge,
        add_of_lt (Nat.lt_of_le_of_lt hwindow hend), add_of_lt hend, Except.ok.injEq] at h
      obtain ⟨_, _, ⟨rfl, rfl⟩, _, v, hfront, _, _, ⟨rfl, rfl⟩, _, _, ⟨rfl, rfl⟩, h⟩ := h
      simp only [sub_of_le hwindow, Except.ok.injEq] at h
      obtain ⟨_, _, ⟨rfl, rfl⟩, _, w, hback, _, _, rfl, rfl, rfl⟩ := h
      exact .trimmed hlt rfl hmap hdvd hge hwindow hfront hback

theorem serve_ok (hM : M.Serves (2 ^ k)) (hs : 0 < size)
    (h : serve M (2 ^ k) size (2 ^ j) s = .ok (r, t)) : Served M (2 ^ k) size (2 ^ j) s r t := by
  simp only [serve, Act.bind_ok, Act.lift_ok] at h
  obtain ⟨found, _, ⟨hround, rfl⟩, h⟩ := h
  cases found with
  | none =>
    obtain ⟨rfl, rfl⟩ := Act.pure_ok.1 h
    exact .denied
  | some len =>
    obtain ⟨_, rfl⟩ := round_eq_some.1 hround
    simp only at h
    split_ifs at h with hle
    · obtain ⟨found, u, hmap, h⟩ := Act.bind_ok.1 h
      cases found with
      | none =>
        obtain ⟨rfl, rfl⟩ := Act.pure_ok.1 h
        exact .refused hmap
      | some addr =>
        simp only [Act.bind_ok, Act.emit_ok, Act.pure_ok] at h
        obtain ⟨_, _, rfl, rfl, rfl⟩ := h
        exact .mapped hle hmap
    · exact serveOverAligned_ok hM hs (Nat.lt_of_not_le hle) h

/-- A request with a bad layout is refused as it stands, any other is served. -/
theorem alloc_ok (hM : M.Serves (2 ^ k)) (h : alloc M (2 ^ k) size align s = .ok (r, t)) :
    (∃ e, r = .error e ∧ t = s) ∨ 0 < size ∧ ∃ j, normalizeAlign align = 2 ^ j ∧
      Served M (2 ^ k) size (2 ^ j) s r t := by
  rcases allocBy_ok h with hbad | ⟨hs, ⟨j, hj⟩, hserve⟩
  · exact .inl hbad
  · rw [hj] at hserve
    exact .inr ⟨hs, j, hj, serve_ok hM hs hserve⟩

theorem free_ok (hp : Placed (2 ^ k) block) (h : free M (2 ^ k) block s = .ok ((), t)) :
    ∃ es, M.trim block.addr (wholePages (2 ^ k) block.len) (s.1, s.2.report es) = .ok ((), t) := by
  simp only [free, Slice.isNull_eq_false.2 hp.nonnull, Bool.false_eq_true, if_false, Act.bind_ok,
    Act.lift_ok, hp.round, Except.ok.injEq] at h
  obtain ⟨_, _, ⟨rfl, rfl⟩, h⟩ := h
  simp only [Act.bind_ok, Act.emit_ok] at h
  obtain ⟨_, _, rfl, htrim⟩ := h
  exact ⟨_, htrim⟩

/-- How a block is resized to some bytes: not at all, by unmapping its last pages, or by moving
it. -/
inductive Adjusted (M : Mapper β) (pageSize : Nat) (mem : Slice) (size align : Nat)
    (s : β × Machine) : Answer → β × Machine → Prop
  | denied {e : AllocError} : Adjusted M pageSize mem size align s (.error e) s
  | shrunk {t es} : align ∣ mem.addr → wholePages pageSize size ≤ wholePages pageSize mem.len →
      M.trim (mem.addr + wholePages pageSize size)
        (wholePages pageSize mem.len - wholePages pageSize size) s = .ok ((), t) →
      Adjusted M pageSize mem size align s (.ok ⟨mem.addr, size⟩) (t.1, t.2.report es)
  | moved {r : Answer} {t} :
      relocate (alloc M pageSize) (free M pageSize) mem size align s = .ok (r, t) →
      Adjusted M pageSize mem size align s r t

theorem adjust_ok (h : adjust M (2 ^ k) mem size align s = .ok (r, t)) :
    Adjusted M (2 ^ k) mem size align s r t := by
  simp only [adjust, Act.bind_ok, Act.lift_ok] at h
  obtain ⟨found, _, ⟨hround, rfl⟩, h⟩ := h
  cases found with
  | none =>
    obtain ⟨rfl, rfl⟩ := Act.pure_ok.1 h
    exact .denied
  | some old =>
    obtain ⟨_, rfl⟩ := round_eq_some.1 hround
    simp only [Act.bind_ok, Act.lift_ok] at h
    obtain ⟨found, _, ⟨hround', rfl⟩, h⟩ := h
    cases found with
    | none =>
      obtain ⟨rfl, rfl⟩ := Act.pure_ok.1 h
      exact .denied
    | some new =>
      obtain ⟨_, rfl⟩ := round_eq_some.1 hround'
      simp only at h
      split_ifs at h with hstays
      · simp only [Act.bind_ok, Act.lift_ok, Act.emit_ok, Act.pure_ok] at h
        obtain ⟨_, _, ⟨hadd, rfl⟩, _, _, ⟨hsub, rfl⟩, _, u, htrim, _, _, rfl, rfl, rfl⟩ := h
        obtain ⟨_, rfl⟩ := add_eq_ok_iff.1 hadd
        obtain ⟨hle, rfl⟩ := sub_eq_ok_iff.1 hsub
        exact .shrunk (Nat.dvd_of_mod_eq_zero hstays.1) hle htrim
      · exact .moved h

theorem orderly (M : Mapper β) (pageSize : Nat) : Orderly (allocator M pageSize) where
  alloc_zero {align s r t} h := by
    change allocBy (serve M pageSize) 0 align s = .ok (r, t) at h
    exact allocBy_zero h
  resize_null hn := resizeBy_null hn
  resize_zero {block align} hn := by
    change resizeBy (alloc M pageSize) (free M pageSize) (adjust M pageSize) block 0 align = _
    exact resizeBy_zero hn
  free_null hn h := by
    simp only [allocator, free, hn, if_true, Act.pure_ok] at h
    obtain ⟨_, rfl⟩ := h
    exact ⟨rfl, rfl⟩

/-! ### Refusals -/

/-- What a deed that is refused leaves behind: nothing has changed, or a mapping was asked for and
refused. -/
def Unserved (M : Mapper β) (s t : β × Machine) : Prop :=
  t = s ∨ ∃ len, M.map len s = .ok (none, t)

theorem alloc_refused (hM : M.Serves (2 ^ k))
    (h : alloc M (2 ^ k) size align s = .ok (.error e, t)) : Unserved M s t := by
  rcases alloc_ok hM h with ⟨_, _, rfl⟩ | ⟨_, j, _, hserved⟩
  · exact .inl rfl
  · cases hserved with
    | denied => exact .inl rfl
    | refused hmap => exact .inr ⟨_, hmap⟩

theorem perform_refused (hM : M.Serves (2 ^ k)) {d : Deed}
    (h : (allocator M (2 ^ k)).perform d s = .ok (.error e, t)) : Unserved M s t := by
  cases d with
  | alloc size align => exact alloc_refused hM h
  | allocZeroed size align =>
    rcases allocZeroed_ok h with ⟨_, _, ha⟩ | ⟨_, _, hbad, _⟩
    · exact alloc_refused hM ha
    · cases hbad
  | resize mem size align =>
    cases hn : mem.isNull with
    | true =>
      change resizeBy _ _ _ mem size align s = _ at h
      rw [resizeBy_null hn] at h
      exact alloc_refused hM h
    | false =>
      by_cases hs : size = 0
      · subst hs
        obtain ⟨hbad, _⟩ := (orderly M (2 ^ k)).resize_zero_ok hn h
        cases hbad
      rcases resizeBy_ok hn hs h with ⟨_, _, rfl⟩ | ⟨_, hadj⟩
      · exact .inl rfl
      · cases adjust_ok hadj with
        | denied => exact .inl rfl
        | moved hreloc =>
          rcases relocate_ok hreloc with ⟨_, _, ha⟩ | ⟨_, _, hbad, _⟩
          · exact alloc_refused hM ha
          · cases hbad
  | free mem => cases (perform_free_ok h).1
  | write addr byte => cases (perform_write_ok h).1

/-! ### Breaking off -/

/-- From state `s` the action breaks off only if rounding up `size` does. -/
theorem alloc_breaksOnly (hM : M.Serves (2 ^ k)) (hk : 2 ^ k < wordLimit) :
    (alloc M (2 ^ k) size align).BreaksOnly
      (fun brk => brk.fault = .addOverflow ∧ AtEdge (2 ^ k) size) s := by
  simp only [alloc, allocBy]
  cases hc : checkRequest size align with
  | error e => exact .pure _ _
  | ok a =>
    obtain ⟨hs, hpow, rfl⟩ := checkRequest_eq_ok_iff.1 hc
    obtain ⟨j, hj⟩ := isPowerOfTwo_iff.1 hpow
    simp only [hj]
    intro brk hbrk
    by_cases hedge : AtEdge (2 ^ k) size
    · have hround : round (2 ^ k) size = .error .addOverflow := (alignUp?_rounds hk).1 hedge
      simp only [serve, hround, Act.bind_apply, Act.lift_apply] at hbrk
      cases hbrk
      exact ⟨rfl, hedge⟩
    · exact (serve_breaksOnly hM hk (Nat.pos_of_ne_zero hs) hedge brk hbrk).elim

variable {allowed : Breakdown → Prop}

theorem free_breaksOnly (hM : M.Serves (2 ^ k)) (hp : block.isNull = true ∨ Placed (2 ^ k) block) :
    (free M (2 ^ k) block).BreaksOnly allowed s := by
  simp only [free]
  cases hn : block.isNull with
  | true => exact .pure _ _
  | false =>
    have hplaced := hp.resolve_left (by simp [hn])
    simp only [Bool.false_eq_true, if_false]
    refine .lift_bind hplaced.round (.emit_bind ?_)
    exact fun brk hbrk => (trim_breaksOnly hM _ _ _ brk hbrk).elim

theorem adjust_breaksOnly (hM : M.Serves (2 ^ k)) (hk : 2 ^ k < wordLimit)
    (hp : Placed (2 ^ k) mem) (hapart : ∀ fresh t,
      alloc M (2 ^ k) size align s = .ok (.ok fresh, t) → mem.CopiesApart fresh) :
    (adjust M (2 ^ k) mem size align).BreaksOnly
      (fun brk => brk.fault = .addOverflow ∧ AtEdge (2 ^ k) size) s := by
  simp only [adjust]
  refine .lift_bind hp.round ?_
  by_cases hedge : AtEdge (2 ^ k) size
  · have hround : round (2 ^ k) size = .error .addOverflow := (alignUp?_rounds hk).1 hedge
    intro brk hbrk
    simp only [hround, Act.bind_apply, Act.lift_apply] at hbrk
    cases hbrk
    exact ⟨rfl, hedge⟩
  obtain ⟨found, hround, _⟩ := (alignUp?_rounds hk).2 hedge
  refine .lift_bind hround ?_
  cases found with
  | none => exact .pure _ _
  | some new =>
    simp only
    split_ifs with hstays
    · have hbounded : mem.addr + wholePages (2 ^ k) mem.len < wordLimit := hp.bounded
      refine .lift_bind (add_of_lt (by omega)) (.lift_bind (sub_of_le hstays.2) ?_)
      refine .bind (fun brk hbrk => (trim_breaksOnly hM _ _ _ brk hbrk).elim) fun _ _ _ => ?_
      exact .emit_bind (.pure _ _)
    · simp only [relocate]
      refine .bind (alloc_breaksOnly hM hk) fun answer t ha => ?_
      cases answer with
      | error e => exact .pure _ _
      | ok fresh =>
        refine .bind (.demand fun hover => absurd (hapart fresh t ha) hover) fun _ _ _ => ?_
        refine .bind (.changeMemory _ _) fun _ _ _ => ?_
        exact .bind (free_breaksOnly hM (.inr hp)) fun _ _ _ => .pure _ _

/-- A deed that names blocks that were handed out, apart from which requests are answered, breaks
off only if it asks for a size that cannot be rounded up. -/
theorem perform_breaksOnly (hM : M.Serves (2 ^ k)) (hk : 2 ^ k < wordLimit)
    {live : List (Lease β)} (hp : ∀ lease ∈ live, Placed (2 ^ k) lease.block)
    (hapart : ∀ lease ∈ live, ∀ {size align fresh t},
      alloc M (2 ^ k) size align s = .ok (.ok fresh, t) → fresh.Disjoint lease.block) {d : Deed}
    (hd : Disciplined live d) : ((allocator M (2 ^ k)).perform d).BreaksOnly
      (fun brk => brk.fault = .addOverflow ∧ d.AtEdge (2 ^ k)) s := by
  have hheld : ∀ {block}, Held live block → block.isNull = true ∨ Placed (2 ^ k) block := by
    rintro block (hn | ⟨lease, hl, rfl⟩)
    · exact .inl hn
    · exact .inr (hp lease hl)
  cases d with
  | alloc size align => exact alloc_breaksOnly hM hk
  | allocZeroed size align =>
    simp only [Allocator.perform, Allocator.allocZeroed]
    refine .bind (alloc_breaksOnly hM hk) fun answer t _ => ?_
    cases answer with
    | error e => exact .pure _ _
    | ok block => exact .bind (.changeMemory _ _) fun _ _ _ => .pure _ _
  | resize mem size align =>
    simp only [Allocator.perform, allocator, resizeBy]
    cases hn : mem.isNull with
    | true => exact alloc_breaksOnly hM hk
    | false =>
      have hplaced := (hheld hd).resolve_left (by simp [hn])
      simp only [Bool.false_eq_true, if_false]
      split_ifs with hs
      · exact .bind (free_breaksOnly hM (.inr hplaced)) fun _ _ _ => .pure _ _
      · cases checkRequest size align with
        | error e => exact .pure _ _
        | ok align =>
          refine adjust_breaksOnly hM hk hplaced fun fresh t ha => ?_
          obtain ⟨lease, hl, rfl⟩ := hd.resolve_left (by simp [hn])
          exact (hapart lease hl ha).symm.copiesApart
  | free mem => exact .bind (free_breaksOnly hM (hheld hd)) fun _ _ _ => .pure _ _
  | write addr byte =>
    simp only [Allocator.perform]
    exact .bind (.changeMemory _ _) fun _ _ _ => .pure _ _

end

end Pages
end AllocChain
