import Mathlib.Data.List.Perm.Basic
import AllocChain.Proofs.Request

/-!
The calls that an allocator gets. `Allocator.traced` writes every call down with its answer. From
the calls it can be told which blocks are outstanding (`outstanding`), and whether every free and
every resize named one that was (`Exact`). To whoever calls it only so, a traced allocator keeps a
ledger, whatever it answers (`Tracked.ledger`), and what it did before it still does
(`Supply.traced`, `Custody.traced`).

`Steady` lists what a property of states has to survive that holds after every run, whatever the
client does (`Steady.run`).
-/

namespace AllocChain

namespace Call

/-- The outstanding blocks after a call. -/
def after (out : List Slice) : Call → List Slice
  | .alloc _ _ none | .resize _ _ _ none => out
  | .alloc _ _ (some block) => block :: out
  | .resize old _ _ (some block) => block :: out.erase old
  | .free block => out.erase block

/-- A free names an outstanding block, and so does a resize, which is never one of null or to no
bytes. -/
def Exact (out : List Slice) : Call → Prop
  | .alloc _ _ _ => True
  | .resize old size _ _ => old ∈ out ∧ old.isNull = false ∧ size ≠ 0
  | .free block => block ∈ out

end Call

/-- The blocks that were handed out and not taken back, each as often as it was. -/
def outstanding (calls : List Call) : List Slice := calls.foldl Call.after []

/-- Every call is one that `ok` admits with what is outstanding before it. -/
def Throughout (ok : List Slice → Call → Prop) (calls : List Call) : Prop :=
  ∀ before call later, calls = before ++ call :: later → ok (outstanding before) call

/-- Every call names what is outstanding before it. -/
def Exact (calls : List Call) : Prop :=
  ∀ before call later, calls = before ++ call :: later → call.Exact (outstanding before)

theorem outstanding_concat (calls : List Call) (call : Call) :
    outstanding (calls ++ [call]) = call.after (outstanding calls) :=
  List.foldl_concat ..

theorem Throughout.nil {ok : List Slice → Call → Prop} : Throughout ok [] := by
  intro before call later h
  cases before <;> cases h

theorem Throughout.concat {ok : List Slice → Call → Prop} {calls : List Call} {call : Call}
    (h : Throughout ok calls) (hc : ok (outstanding calls) call) :
    Throughout ok (calls ++ [call]) := by
  intro before call' later heq
  rcases List.eq_nil_or_concat later with rfl | ⟨later', last, rfl⟩
  · obtain ⟨rfl, hcall⟩ := List.append_inj' heq rfl
    cases hcall
    exact hc
  · rw [List.concat_eq_append, ← List.cons_append, ← List.append_assoc] at heq
    exact h before call' later' (List.append_inj' heq rfl).1

theorem Exact.nil : Exact [] := Throughout.nil

theorem Exact.concat {calls : List Call} {call : Call} (h : Exact calls)
    (hc : call.Exact (outstanding calls)) : Exact (calls ++ [call]) :=
  Throughout.concat h hc

variable {α β γ : Type}

/-- Does something below and writes a call down. -/
def Act.noting (call : α → Call) (x : Act β α) : Act (List Call × β) α := do
  let a ← Act.below x
  let calls ← Act.own
  Act.setOwn (calls ++ [call a])
  return a

theorem Act.noting_ok {call : α → Call} {x : Act β α} {s t : (List Call × β) × Machine} {a : α} :
    noting call x s = .ok (a, t) ↔
      ∃ u, x (s.1.2, s.2) = .ok (a, u) ∧ t = ((s.1.1 ++ [call a], u.1), u.2) := by
  simp only [noting, bind_ok, below_ok, own_ok, setOwn_ok, pure_ok]
  constructor
  · rintro ⟨_, _, ⟨u, hx, rfl⟩, _, _, ⟨rfl, rfl⟩, _, _, rfl, rfl, rfl⟩
    exact ⟨u, hx, rfl⟩
  · rintro ⟨u, hx, rfl⟩
    exact ⟨a, _, ⟨u, hx, rfl⟩, _, _, ⟨rfl, rfl⟩, (), _, rfl, rfl, rfl⟩

/-- The allocator, writing down every call and its answer. -/
def Allocator.traced (B : Allocator β) : Allocator (List Call × β) where
  alloc size align := Act.noting (fun r => .alloc size align r.toOption) (B.alloc size align)
  resize block size align :=
    Act.noting (fun r => .resize block size align r.toOption) (B.resize block size align)
  free block := Act.noting (fun _ => .free block) (B.free block)

/-- What breaks off breaks off before it is written down. -/
theorem Act.noting_error {call : α → Call} {x : Act β α} {s : (List Call × β) × Machine}
    {brk : Breakdown} (h : x (s.1.2, s.2) = .error brk) : noting call x s = .error brk := by
  obtain ⟨⟨calls, b⟩, m⟩ := s
  simp only at h
  simp [noting, h, Except.bind, Except.map]

/-- A request that is answered is written down with its answer. -/
theorem Allocator.traced_alloc {B : Allocator β} {size align : Nat} {s : (List Call × β) × Machine}
    {r : Answer} {u : β × Machine} (h : B.alloc size align (s.1.2, s.2) = .ok (r, u)) :
    B.traced.alloc size align s =
      .ok (r, ((s.1.1 ++ [.alloc size align r.toOption], u.1), u.2)) :=
  Act.noting_ok.2 ⟨u, h, rfl⟩

theorem Allocator.traced_freeAll {B : Allocator β} {blocks : List Slice}
    {s t : (List Call × β) × Machine} (h : B.traced.freeAll blocks s = .ok ((), t)) :
    t.1.1 = s.1.1 ++ blocks.map .free := by
  induction blocks generalizing s with
  | nil =>
    rw [(Act.pure_ok.1 h).2]
    exact (List.append_nil _).symm
  | cons block blocks ih =>
    obtain ⟨_, u, hfree, hrest⟩ := Act.bind_ok.1 h
    obtain ⟨v, _, rfl⟩ := Act.noting_ok.1 hfree
    rw [ih hrest, List.map_cons, List.append_assoc, List.singleton_append]

/-- The calls were exact, and the blocks are outstanding after them. -/
def Tracked (out : List Slice) (s : (List Call × β) × Machine) : Prop :=
  Exact s.1.1 ∧ (outstanding s.1.1).Perm out

theorem Tracked.nil {b : β} {m : Machine} : Tracked [] (([], b), m) := ⟨.nil, .nil⟩

theorem erase_perm {out rest : List Slice} {block : Slice} (h : out.Perm (block :: rest)) :
    (out.erase block).Perm rest := by
  have herase := h.erase block
  rwa [List.erase_cons_head] at herase

/-- A traced allocator keeps a ledger, whatever it answers. -/
theorem Tracked.ledger (B : Allocator β) : Ledger B.traced Slice.Any Tracked where
  perm hp hh := ⟨hh.1, hh.2.trans hp⟩
  report hh := hh
  alloc := by
    rintro out s size align block t ⟨hexact, hp⟩ ha
    obtain ⟨u, _, rfl⟩ := Act.noting_ok.1 ha
    refine ⟨trivial, hexact.concat trivial, ?_⟩
    rw [outstanding_concat]
    exact hp.cons block
  alloc_refused := by
    rintro out s size align e t ⟨hexact, hp⟩ ha
    obtain ⟨u, _, rfl⟩ := Act.noting_ok.1 ha
    refine ⟨hexact.concat trivial, ?_⟩
    rw [outstanding_concat]
    exact hp
  resize := by
    rintro out s old size align block t ⟨hexact, hp⟩ hn hs hr
    obtain ⟨u, _, rfl⟩ := Act.noting_ok.1 hr
    refine ⟨trivial, hexact.concat ⟨hp.mem_iff.2 List.mem_cons_self, hn, hs⟩, ?_⟩
    rw [outstanding_concat]
    exact (erase_perm hp).cons block
  resize_refused := by
    rintro out s old size align e t ⟨hexact, hp⟩ hn hs hr
    obtain ⟨u, _, rfl⟩ := Act.noting_ok.1 hr
    refine ⟨hexact.concat ⟨hp.mem_iff.2 List.mem_cons_self, hn, hs⟩, ?_⟩
    rw [outstanding_concat]
    exact hp
  free := by
    rintro out s block t ⟨hexact, hp⟩ hf
    obtain ⟨u, _, rfl⟩ := Act.noting_ok.1 hf
    refine ⟨hexact.concat (hp.mem_iff.2 List.mem_cons_self), ?_⟩
    rw [outstanding_concat]
    exact erase_perm hp

/-- What is outstanding is what the calls say, and the allocator holds it. -/
def Traced (holds : List Slice → β × Machine → Prop) (out : List Slice)
    (s : (List Call × β) × Machine) : Prop :=
  holds out (s.1.2, s.2) ∧ Tracked out s

/-- Writing the calls down changes nothing about the blocks. -/
theorem Supply.traced {B : Allocator β} {fit : Nat → Nat → Slice → Prop}
    {holds : List Slice → β × Machine → Prop} (hB : Supply B fit holds) :
    Supply B.traced fit (Traced holds) where
  perm hp hh := ⟨hB.perm hp hh.1, (Tracked.ledger B).perm hp hh.2⟩
  report hh := ⟨hB.report hh.1, hh.2⟩
  alloc hh ha := by
    have hnoted := (Tracked.ledger B).alloc hh.2 ha
    obtain ⟨u, hcall, rfl⟩ := Act.noting_ok.1 ha
    obtain ⟨hfit, hnew⟩ := hB.alloc hh.1 hcall
    exact ⟨hfit, hnew, hnoted.2⟩
  alloc_refused hh ha := by
    have hnoted := (Tracked.ledger B).alloc_refused hh.2 ha
    obtain ⟨u, hcall, rfl⟩ := Act.noting_ok.1 ha
    exact ⟨hB.alloc_refused hh.1 hcall, hnoted⟩
  resize hh hn hs hr := by
    have hnoted := (Tracked.ledger B).resize hh.2 hn hs hr
    obtain ⟨u, hcall, rfl⟩ := Act.noting_ok.1 hr
    obtain ⟨hfit, hnew⟩ := hB.resize hh.1 hn hs hcall
    exact ⟨hfit, hnew, hnoted.2⟩
  resize_refused hh hn hs hr := by
    have hnoted := (Tracked.ledger B).resize_refused hh.2 hn hs hr
    obtain ⟨u, hcall, rfl⟩ := Act.noting_ok.1 hr
    exact ⟨hB.resize_refused hh.1 hn hs hcall, hnoted⟩
  free hh hf := by
    have hnoted := (Tracked.ledger B).free hh.2 hf
    obtain ⟨u, hcall, rfl⟩ := Act.noting_ok.1 hf
    exact ⟨hB.free hh.1 hcall, hnoted⟩
  write hh hw := ⟨hB.write hh.1 hw, hh.2⟩
  apart hh := hB.apart hh.1
  bounded hh := hB.bounded hh.1

theorem Custody.traced {B : Allocator β} {holds : List Slice → β × Machine → Prop}
    (hC : Custody B holds) : Custody B.traced (Traced holds) where
  alloc hh ha := by
    obtain ⟨u, hcall, rfl⟩ := Act.noting_ok.1 ha
    exact hC.alloc hh.1 hcall
  resize hh hn hs hr := by
    obtain ⟨u, hcall, rfl⟩ := Act.noting_ok.1 hr
    exact hC.resize hh.1 hn hs hcall
  resize_refused hh hn hs hr := by
    obtain ⟨u, hcall, rfl⟩ := Act.noting_ok.1 hr
    exact hC.resize_refused hh.1 hn hs hcall
  free hh hf := by
    obtain ⟨u, hcall, rfl⟩ := Act.noting_ok.1 hf
    exact hC.free hh.1 hcall

theorem Traced.nil {holds : List Slice → β × Machine → Prop} {b : β} {m : Machine}
    (h : holds [] (b, m)) : Traced holds [] (([], b), m) := ⟨h, .nil⟩

/-- What a property of states has to survive to hold after all runs. It does not look at the
machine; `adjust` is what a resize to some bytes does. -/
structure Steady (A : Allocator γ) (adjust : Slice → Nat → Nat → Act γ Answer)
    (inv : γ × Machine → Prop) : Prop where
  resize_eq : A.resize = resizeBy A.alloc A.free adjust
  machine {g m m'} : inv (g, m) → inv (g, m')
  alloc {s size align r t} : inv s → A.alloc size align s = .ok (r, t) → inv t
  free {s block t} : inv s → A.free block s = .ok ((), t) → inv t
  adjust {s block size align r t} : inv s → block.isNull = false → size ≠ 0 →
    adjust block size align s = .ok (r, t) →
    inv t ∨ relocate A.alloc A.free block size align s = .ok (r, t)

namespace Steady

variable {A : Allocator γ} {adjust : Slice → Nat → Nat → Act γ Answer} {inv : γ × Machine → Prop}
  {s t start : γ × Machine} {block : Slice} {size align : Nat} {r : Answer}

theorem relocate (h : Steady A adjust inv) (hi : inv s)
    (hr : AllocChain.relocate A.alloc A.free block size align s = .ok (r, t)) : inv t := by
  rcases relocate_ok hr with ⟨_, _, ha⟩ | ⟨fresh, u, _, ha, hf⟩
  · exact h.alloc hi ha
  · exact h.free (h.machine (h.alloc hi ha)) hf

theorem resize (h : Steady A adjust inv) (hi : inv s)
    (hr : A.resize block size align s = .ok (r, t)) : inv t := by
  rw [h.resize_eq] at hr
  cases hn : block.isNull with
  | true =>
    rw [resizeBy_null hn] at hr
    exact h.alloc hi hr
  | false =>
    by_cases hs : size = 0
    · subst hs
      rw [resizeBy_zero hn] at hr
      obtain ⟨_, u, hf, hret⟩ := Act.bind_ok.1 hr
      rw [(Act.pure_ok.1 hret).2]
      exact h.free hi hf
    · rcases resizeBy_ok hn hs hr with ⟨_, _, rfl⟩ | ⟨_, hadj⟩
      · exact hi
      · rcases h.adjust hi hn hs hadj with hdone | hreloc
        · exact hdone
        · exact h.relocate hi hreloc

theorem step (h : Steady A adjust inv) (hi : inv s) {d : Deed}
    (hd : A.perform d s = .ok (r, t)) : inv t := by
  cases d with
  | alloc size align => exact h.alloc hi hd
  | allocZeroed size align =>
    rcases allocZeroed_ok hd with ⟨_, _, ha⟩ | ⟨_, u, _, ha, rfl⟩
    · exact h.alloc hi ha
    · exact h.machine (h.alloc hi ha)
  | resize block size align => exact h.resize hi hd
  | free block => exact h.free hi (perform_free_ok hd).2
  | write addr byte =>
    rw [(perform_write_ok hd).2]
    exact h.machine hi

/-- What survives every deed and every sweep holds after every run. -/
theorem run (h : Steady A adjust inv) {sweeps : List (Act γ Unit)}
    {rule : List (Lease γ) → Deed → Prop} {live : List (Lease γ)}
    (hsweep : ∀ x ∈ sweeps, ∀ s t, inv s → x s = .ok ((), t) → inv t) (hstart : inv start)
    (hrun : Run A sweeps rule start live s) : inv s := by
  induction hrun with
  | start => exact hstart
  | deed _ _ hd ih => exact h.step ih hd
  | sweep _ hx hd ih => exact hsweep _ hx _ _ ih hd

end Steady
end AllocChain
