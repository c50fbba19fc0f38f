import AllocChain.Proofs.Service
import AllocChain.Scripted

/-!
A scripted heap that keeps to the contract. It may refuse any calls it likes; but what it hands out
is as long as was asked for or longer, and lies where it should (`ScriptedHeap.Honest`). Its blocks
are cut from the unused end one behind the other, so they lie apart in the part that was handed out
(`ScriptedHeap.Held`), and the heap offers the whole interface (`ScriptedHeap.service`).
-/

namespace AllocChain.ScriptedHeap

open Memory

/-- The heap cuts no block short and misplaces none, and its memory starts behind null and does not
wrap round. -/
structure Honest (h : ScriptedHeap) : Prop where
  short : h.short = none
  skew : h.skew = 0
  base_pos : 0 < h.base
  limit : h.base + h.limit < wordLimit

/-- The blocks lie apart in the part of an honest heap that was handed out. -/
structure Held (out : List Slice) (h : ScriptedHeap) : Prop where
  honest : h.Honest
  next_le : h.next ≤ h.limit
  inside : ∀ block ∈ out, block.Inside ⟨h.base, h.next⟩
  apart : out.Pairwise Slice.Disjoint

/-- The blocks are held, whatever the machine does. -/
def Holds (out : List Slice) (s : ScriptedHeap × Machine) : Prop := Held out s.1

namespace Held

variable {h : ScriptedHeap} {out out' : List Slice} {old : Slice} {size align : Nat}

theorem nil (hh : h.Honest) (hn : h.next ≤ h.limit) : Held [] h := ⟨hh, hn, by simp, .nil⟩

theorem counted (hh : Held out h) (requests allocs frees : Nat) :
    Held out { h with requests := requests, allocs := allocs, frees := frees } :=
  ⟨⟨hh.honest.short, hh.honest.skew, hh.honest.base_pos, hh.honest.limit⟩, hh.next_le, hh.inside,
    hh.apart⟩

theorem perm (hp : out.Perm out') (hh : Held out h) : Held out' h :=
  ⟨hh.honest, hh.next_le, fun block hb => hh.inside block (hp.mem_iff.2 hb),
    hp.pairwise hh.apart fun hd => hd.symm⟩

theorem tail (hh : Held (old :: out) h) : Held out h :=
  ⟨hh.honest, hh.next_le, fun block hb => hh.inside block (List.mem_cons_of_mem _ hb),
    hh.apart.tail⟩

theorem bounded (hh : Held out h) : ∀ block ∈ out, block.Bounded := by
  intro block hb
  have hin := hh.inside block hb
  have hnext := hh.next_le
  have hlimit := hh.honest.limit
  simp only [Slice.Inside] at hin
  simp only [Slice.Bounded]
  omega

theorem shrink (hh : Held (old :: out) h) (hs : size ≤ old.len) :
    Held (⟨old.addr, size⟩ :: out) h := by
  have hin : (⟨old.addr, size⟩ : Slice).Inside old :=
    ⟨Nat.le_refl _, Nat.add_le_add_left hs _⟩
  obtain ⟨hold, hothers⟩ := List.forall_mem_cons.1 hh.inside
  obtain ⟨hd, hapart⟩ := List.pairwise_cons.1 hh.apart
  exact ⟨hh.honest, hh.next_le, List.forall_mem_cons.2 ⟨hin.trans hold, hothers⟩,
    List.pairwise_cons.2 ⟨fun block hb => (hd block hb).mono hin (.refl _), hapart⟩⟩

/-- A block that is carved answers the request and lies behind all others. -/
theorem carve (hh : Held out h) (size align : Nat) :
    (∀ block, (h.carve size align).1 = .ok block →
      block.Answers size align ∧ Held (block :: out) (h.carve size align).2) ∧
    ∀ e, (h.carve size align).1 = .error e → Held out (h.carve size align).2 := by
  obtain ⟨number, base, limit, refused, short, extra, skew, next, requests, allocs, frees⟩ := h
  obtain ⟨hshort, hskew, hbase, hlimit⟩ := hh.honest
  change short = none at hshort
  change skew = 0 at hskew
  subst hshort hskew
  simp only [ScriptedHeap.carve, Nat.add_zero]
  split
  · exact ⟨nofun, fun _ _ => hh.counted _ _ _⟩
  split
  · exact ⟨nofun, fun _ _ => hh.counted _ _ _⟩
  rename_i hfits
  obtain ⟨_, hroom⟩ := not_or.1 hfits
  have hunit : 0 < normalizeAlign align := Nat.lt_of_lt_of_le Nat.one_pos (Nat.le_max_right _ _)
  have hstart := Nat.lt_div_mul_add hunit (a := base + next + normalizeAlign align - 1)
  generalize (base + next + normalizeAlign align - 1) / normalizeAlign align = units
    at hstart hroom ⊢
  have hdvd : normalizeAlign align ∣ units * normalizeAlign align := Nat.dvd_mul_left _ _
  refine ⟨fun block heq => ?_, nofun⟩
  cases heq
  generalize units * normalizeAlign align = start at hstart hroom hdvd ⊢
  have hbehind : base + next ≤ start := by omega
  have hpos : start ≠ 0 := by
    simp only at hbase
    omega
  refine ⟨⟨⟨Nat.le_add_right _ _, hdvd⟩, hpos⟩, ⟨rfl, rfl, hbase, hlimit⟩, ?_, ?_, ?_⟩
  · simp only
    omega
  · refine List.forall_mem_cons.2 ⟨?_, fun block hb => (hh.inside block hb).trans ?_⟩ <;>
      simp only [Slice.Inside] <;> omega
  · refine List.pairwise_cons.2 ⟨fun block hb => Slice.disjoint_of_le (.inr ?_), hh.apart⟩
    exact Nat.le_trans (hh.inside block hb).2 hbehind

end Held

variable {out : List Slice} {s t : ScriptedHeap × Machine} {old block : Slice} {size align : Nat}
  {r : Answer}

theorem cut_held (hh : Holds out s) (hcut : cut size align s = .ok (r, t)) :
    t.2 = s.2 ∧ (∀ block, r = .ok block → block.Answers size align ∧ Holds (block :: out) t) ∧
      ∀ e, r = .error e → Holds out t := by
  cases hcut
  exact ⟨rfl, hh.carve size align⟩

theorem alloc_held (hh : Holds out s) (ha : alloc size align s = .ok (r, t)) :
    t.2.memory = s.2.memory ∧
      (∀ block, r = .ok block → block.Answers size align ∧ Holds (block :: out) t) ∧
      ∀ e, r = .error e → Holds out t := by
  simp only [alloc] at ha
  obtain ⟨answer, u, hcut, ha⟩ := Act.bind_ok.1 ha
  obtain ⟨hmachine, hgranted, hrefused⟩ := cut_held hh hcut
  obtain ⟨_, v, hlog, ha⟩ := Act.bind_ok.1 ha
  cases hlog
  cases answer with
  | error e =>
    cases ha
    exact ⟨by rw [← hmachine], nofun, fun _ _ => hrefused e rfl⟩
  | ok block =>
    cases ha
    refine ⟨by rw [← hmachine], fun block' heq => ?_, nofun⟩
    cases heq
    obtain ⟨hans, hheld⟩ := hgranted block rfl
    exact ⟨hans, hheld.counted _ _ _⟩

/-- A block is resized where it is, or a new one gets its bytes. -/
theorem resize_held (hh : Holds (old :: out) s) (hn : old.isNull = false) (hs : size ≠ 0)
    (hr : resize old size align s = .ok (r, t)) :
    (∀ block, r = .ok block → block.Answers size align ∧ Holds (block :: out) t ∧
      AgreesOn out s.2.memory t.2.memory ∧ Carried old block s.2.memory t.2.memory) ∧
    ∀ e, r = .error e → Holds (old :: out) t ∧ t.2.memory = s.2.memory := by
  simp only [resize, hn, Bool.false_eq_true, if_false, if_neg hs] at hr
  split at hr
  · rename_i hkeeps
    obtain ⟨hlen, halign⟩ := hkeeps
    cases hr
    refine ⟨fun block heq => ?_, nofun⟩
    cases heq
    exact ⟨⟨⟨Nat.le_refl _, Nat.dvd_of_mod_eq_zero halign⟩, Slice.isNull_eq_false.1 hn⟩,
      hh.shrink hlen, .refl _ _, fun _ _ _ => rfl⟩
  · obtain ⟨answer, u, hcut, hr⟩ := Act.bind_ok.1 hr
    obtain ⟨hmachine, hgranted, hrefused⟩ := cut_held hh hcut
    obtain ⟨_, v, hlog, hr⟩ := Act.bind_ok.1 hr
    cases hlog
    cases answer with
    | error e =>
      cases hr
      exact ⟨nofun, fun _ _ => ⟨hrefused e rfl, by rw [← hmachine]⟩⟩
    | ok fresh =>
      cases hr
      refine ⟨fun block heq => ?_, nofun⟩
      cases heq
      obtain ⟨hans, hheld⟩ := hgranted fresh rfl
      have hothers : Held (fresh :: out) u.1 := (hheld.perm (.swap _ _ _)).tail
      have hcarried : Carried old fresh u.2.memory (u.2.memory.copyCommon old fresh) :=
        carried_copyCommon (Slice.isNull_eq_false.1 hn) hans.2
      have hwritten := writtenIn_copyCommon u.2.memory old fresh
      have hsame := hwritten.agreesOn (List.pairwise_cons.1 hothers.apart).1
      rw [hmachine] at hcarried hsame
      refine ⟨hans, hothers, ?_, ?_⟩
      · change AgreesOn out s.2.memory (u.2.memory.copyCommon old fresh)
        rwa [hmachine]
      · change Carried old fresh s.2.memory (u.2.memory.copyCommon old fresh)
        rwa [hmachine]

/-- An honest heap offers the whole interface, whichever calls it refuses. -/
theorem service : Service ScriptedHeap.allocator Holds where
  supply :=
    { perm := fun hp hh => hh.perm hp
      report := fun hh => hh
      write := fun hh _ => hh
      apart := fun hh => hh.apart
      bounded := fun hh => hh.bounded
      alloc := fun hh ha => (alloc_held hh ha).2.1 _ rfl
      alloc_refused := fun hh ha => (alloc_held hh ha).2.2 _ rfl
      resize := fun hh hn hs hr =>
        ⟨((resize_held hh hn hs hr).1 _ rfl).1, ((resize_held hh hn hs hr).1 _ rfl).2.1⟩
      resize_refused := fun hh hn hs hr => ((resize_held hh hn hs hr).2 _ rfl).1
      free := fun hh hf => by
        cases hf
        exact (hh.counted _ _ _).tail }
  custody :=
    { alloc := fun hh ha _ _ _ _ => by rw [(alloc_held hh ha).1]
      resize := fun hh hn hs hr => ((resize_held hh hn hs hr).1 _ rfl).2.2
      resize_refused := fun hh hn hs hr _ _ _ _ => by rw [((resize_held hh hn hs hr).2 _ rfl).2]
      free := fun _ hf => by
        cases hf
        exact .refl _ _ }
  resize_null hn := by
    change resize _ _ _ = alloc _ _
    simp only [resize]
    rw [if_pos hn]
  resize_zero hn := by
    change resize _ 0 _ = _
    simp only [resize]
    simp [hn, allocator]
  free_null hh _ hf := by
    cases hf
    exact ⟨hh.counted _ _ _, .refl _ _⟩

end AllocChain.ScriptedHeap
