import AllocChain.Proofs.Contract
import AllocChain.Scripted

/-!
A scripted heap that may cut its blocks short, make them longer and misplace them. Whatever it does
to them, they lie apart in the part that was handed out (`ScriptedHeap.Cut`), and no later block
starts before the end of what was asked for an earlier one. So it is a supply of blocks of whatever
length (`ScriptedHeap.supply_cut`).
-/

namespace AllocChain

namespace ScriptedHeap

/-- The blocks lie apart in what was handed out of the heap, however much of it they are. -/
structure Cut (out : List Slice) (h : ScriptedHeap) : Prop where
  limit : h.base + h.limit < wordLimit
  next_le : h.next ≤ h.limit
  inside : ∀ block ∈ out, block.Inside ⟨h.base, h.next⟩
  apart : out.Pairwise Slice.Disjoint

namespace Cut

variable {h : ScriptedHeap} {out out' : List Slice} {old : Slice} {size : Nat}

theorem perm (hp : out.Perm out') (hh : Cut out h) : Cut out' h :=
  ⟨hh.limit, hh.next_le, fun block hb => hh.inside block (hp.mem_iff.2 hb),
    hp.pairwise hh.apart fun hd => hd.symm⟩

theorem tail (hh : Cut (old :: out) h) : Cut out h :=
  ⟨hh.limit, hh.next_le, fun block hb => hh.inside block (List.mem_cons_of_mem _ hb), hh.apart.tail⟩

theorem bounded (hh : Cut out h) : ∀ block ∈ out, block.Bounded := by
  intro block hb
  have hin := hh.inside block hb
  have hnext := hh.next_le
  have hlimit := hh.limit
  simp only [Slice.Inside] at hin
  simp only [Slice.Bounded]
  omega

theorem counted (hh : Cut out h) (requests allocs frees : Nat) :
    Cut out { h with requests, allocs, frees } :=
  ⟨hh.limit, hh.next_le, hh.inside, hh.apart⟩

theorem shrink (hh : Cut (old :: out) h) (hs : size ≤ old.len) :
    Cut (⟨old.addr, size⟩ :: out) h := by
  have hin : (⟨old.addr, size⟩ : Slice).Inside old := ⟨Nat.le_refl _, Nat.add_le_add_left hs _⟩
  obtain ⟨hold, hothers⟩ := List.forall_mem_cons.1 hh.inside
  obtain ⟨hd, hapart⟩ := List.pairwise_cons.1 hh.apart
  exact ⟨hh.limit, hh.next_le, List.forall_mem_cons.2 ⟨hin.trans hold, hothers⟩,
    List.pairwise_cons.2 ⟨fun block hb => (hd block hb).mono hin (.refl _), hapart⟩⟩

/-- A block that is carved lies behind all others, and no later one starts before the end of what
was asked for. -/
theorem carve (hh : Cut out h) (size align : Nat) :
    (∀ block room, (h.carve size align).1 = .ok block → room.addr = block.addr →
      room.len ≤ max size block.len → Cut (room :: out) (h.carve size align).2) ∧
    ∀ e, (h.carve size align).1 = .error e → Cut out (h.carve size align).2 := by
  obtain ⟨number, base, limit, refused, short, extra, skew, next, requests, allocs, frees⟩ := h
  have hlimit := hh.limit
  simp only [ScriptedHeap.carve]
  split
  · exact ⟨by simp, fun _ _ => hh.counted _ _ _⟩
  split
  · exact ⟨by simp, fun _ _ => hh.counted _ _ _⟩
  rename_i hfits
  obtain ⟨_, hroom⟩ := not_or.1 hfits
  have hunit : 0 < normalizeAlign align := Nat.lt_of_lt_of_le Nat.one_pos (Nat.le_max_right _ _)
  have hstart := Nat.lt_div_mul_add hunit (a := base + next + normalizeAlign align - 1)
  generalize (base + next + normalizeAlign align - 1) / normalizeAlign align * normalizeAlign align
    = start at hstart hroom ⊢
  have hbehind : base + next ≤ start := by omega
  refine ⟨fun block room heq hstarts hlong => ?_, by simp⟩
  obtain ⟨haddr, hlen⟩ : room.addr = start + skew ∧ room.len ≤ size + extra := by
    cases heq
    refine ⟨hstarts, Nat.le_trans hlong (Nat.max_le.2 ⟨Nat.le_add_right _ _, ?_⟩)⟩
    cases short with
    | none => exact Nat.le_refl _
    | some short => exact Nat.min_le_left _ _
  refine ⟨hlimit, ?_, ?_, ?_⟩
  · simp only
    omega
  · refine List.forall_mem_cons.2 ⟨?_, fun block hb => (hh.inside block hb).trans ?_⟩ <;>
      simp only [Slice.Inside] <;> omega
  · refine List.pairwise_cons.2 ⟨fun other ho => Slice.disjoint_of_le (.inr ?_), hh.apart⟩
    have hend : other.addr + other.len ≤ base + next := (hh.inside other ho).2
    omega

end Cut

variable {s t : ScriptedHeap × Machine} {out : List Slice} {old : Slice} {size align : Nat}
  {r : Answer}

theorem cut_cut (hh : Cut out s.1) (hcut : cut size align s = .ok (r, t)) :
    (∀ block room, r = .ok block → room.addr = block.addr → room.len ≤ max size block.len →
      Cut (room :: out) t.1) ∧ ∀ e, r = .error e → Cut out t.1 := by
  cases hcut
  exact hh.carve size align

/-- Whatever starts with the block that was handed out, and is no longer than that or than what was
asked for, lies apart from what is outstanding. -/
theorem alloc_cut (hh : Cut out s.1) (ha : alloc size align s = .ok (r, t)) :
    (∀ block room, r = .ok block → room.addr = block.addr → room.len ≤ max size block.len →
      Cut (room :: out) t.1) ∧ ∀ e, r = .error e → Cut out t.1 := by
  simp only [alloc] at ha
  obtain ⟨answer, u, hcut, ha⟩ := Act.bind_ok.1 ha
  obtain ⟨_, v, hlog, ha⟩ := Act.bind_ok.1 ha
  obtain ⟨hgranted, hrefused⟩ := cut_cut hh hcut
  cases hlog
  cases answer with
  | error e =>
    cases ha
    exact ⟨by simp, fun _ _ => hrefused e rfl⟩
  | ok block =>
    cases ha
    refine ⟨fun _ room heq haddr hlen => ?_, by simp⟩
    cases heq
    exact (hgranted block room rfl haddr hlen).counted _ _ _

theorem resize_cut {room block new : Slice} (hh : Cut (room :: out) s.1)
    (haddr : old.addr = room.addr) (hlen : old.len ≤ room.len) (hn : old.isNull = false)
    (hs : size ≠ 0) (hr : resize old size align s = .ok (.ok block, t))
    (hstarts : new.addr = block.addr)
    (hlong : new.len ≤ max size block.len) : Cut (new :: out) t.1 := by
  simp only [resize, hn, Bool.false_eq_true, if_false, if_neg hs] at hr
  split at hr
  · rename_i hkeeps
    cases hr
    rw [Nat.max_self] at hlong
    have hnew := hh.shrink (Nat.le_trans hlong (Nat.le_trans hkeeps.1 hlen))
    rwa [← haddr, ← hstarts] at hnew
  · obtain ⟨answer, u, hcut, hr⟩ := Act.bind_ok.1 hr
    obtain ⟨_, v, hlog, hr⟩ := Act.bind_ok.1 hr
    have hgranted := (cut_cut hh hcut).1
    cases hlog
    cases answer with
    | error e => cases hr
    | ok fresh =>
      cases hr
      exact ((hgranted _ new rfl hstarts hlong).perm (.swap _ _ _)).tail

theorem refuse_cut {e : AllocError} (hh : Cut out s.1) (hn : old.isNull = false) (hs : size ≠ 0)
    (hr : resize old size align s = .ok (.error e, t)) : Cut out t.1 := by
  simp only [resize, hn, Bool.false_eq_true, if_false, if_neg hs] at hr
  split at hr
  · cases hr
  · obtain ⟨answer, u, hcut, hr⟩ := Act.bind_ok.1 hr
    obtain ⟨_, v, hlog, hr⟩ := Act.bind_ok.1 hr
    have hrefused := (cut_cut hh hcut).2
    cases hlog
    cases answer with
    | error e =>
      cases hr
      exact hrefused e rfl
    | ok fresh => cases hr

/-- A scripted heap hands out disjoint blocks, whatever it does to their lengths and places. -/
theorem supply_cut : Supply ScriptedHeap.allocator Slice.Any fun out s => Cut out s.1 where
  perm hp hh := hh.perm hp
  report hh := hh
  alloc hh ha := ⟨trivial, (alloc_cut hh ha).1 _ _ rfl rfl (Nat.le_max_right _ _)⟩
  alloc_refused hh ha := (alloc_cut hh ha).2 _ rfl
  resize hh hn hs hr :=
    ⟨trivial, resize_cut hh rfl (Nat.le_refl _) hn hs hr rfl (Nat.le_max_right _ _)⟩
  resize_refused hh hn hs hr := refuse_cut hh hn hs hr
  free hh hf := by
    cases hf
    exact (hh.counted _ _ _).tail
  write hh _ := hh
  apart hh := hh.apart
  bounded hh := hh.bounded

end ScriptedHeap
end AllocChain
