import AllocChain.Proofs.Contract

/-!
Several clients of one allocator. Each of them may look at the allocator as if it were alone: the
blocks of the others are a frame around its own, which no operation touches and whose bytes stay as
they were in some memory `m₀`. What meets the interface contract meets it inside any frame
(`Contract.framed`).
-/

namespace AllocChain

open Memory

theorem Memory.WrittenIn.agreesOn_apart {blocks others : List Slice} {m m' : Memory}
    (h : WrittenIn blocks m m')
    (hd : ∀ block ∈ blocks, ∀ other ∈ others, block.Disjoint other) : AgreesOn others m m' := by
  intro other ho a ha
  exact h a fun block hb hba => hd block hb other ho a hba ha

variable {β : Type} {B : Allocator β} {fit : Nat → Nat → Slice → Prop}
  {holds : List Slice → β × Machine → Prop}

/-- Beside the blocks of `out` those of others are outstanding, and these have the bytes that they
have in `m₀`. -/
def Framed (holds : List Slice → β × Machine → Prop) (others : List Slice) (m₀ : Memory)
    (out : List Slice) (s : β × Machine) : Prop :=
  holds (out ++ others) s ∧ AgreesOn others m₀ s.2.memory

theorem Framed.agreesOn {others out : List Slice} {m₀ : Memory} {s t : β × Machine}
    (h : Framed holds others m₀ out s) (ha : AgreesOn (out ++ others) s.2.memory t.2.memory) :
    AgreesOn others m₀ t.2.memory :=
  h.2.trans (ha.subset (List.subset_append_right _ _))

/-- A supply is one inside a frame. -/
theorem Supply.framed (hB : Supply B fit holds) (hC : Custody B holds) (others : List Slice)
    (m₀ : Memory) : Supply B fit (Framed holds others m₀) where
  perm hp hh := ⟨hB.perm (hp.append_right others) hh.1, hh.2⟩
  report hh := ⟨hB.report hh.1, hh.2⟩
  write {out b m m'} hh hw := by
    have hd := List.pairwise_append.1 (hB.apart hh.1)
    have hwide : WrittenIn (out ++ others) m.memory m'.memory :=
      hw.inside fun block hb => ⟨block, List.mem_append_left _ hb, .refl _⟩
    exact ⟨hB.write hh.1 hwide, hh.2.trans (hw.agreesOn_apart hd.2.2)⟩
  apart hh := (List.pairwise_append.1 (hB.apart hh.1)).1
  bounded hh block hb := hB.bounded hh.1 block (List.mem_append_left _ hb)
  alloc hh ha := by
    obtain ⟨hfit, hnew⟩ := hB.alloc hh.1 ha
    exact ⟨hfit, hnew, hh.agreesOn (hC.alloc hh.1 ha)⟩
  alloc_refused hh ha := ⟨hB.alloc_refused hh.1 ha, hh.agreesOn (hC.alloc hh.1 ha)⟩
  resize {out s old size align block t} hh hn hs hr := by
    obtain ⟨hfit, hnew⟩ := hB.resize hh.1 hn hs hr
    have hsame : AgreesOn (out ++ others) s.2.memory t.2.memory := (hC.resize hh.1 hn hs hr).1
    exact ⟨hfit, hnew, hh.2.trans (hsame.subset (List.subset_append_right _ _))⟩
  resize_refused hh hn hs hr := ⟨hB.resize_refused hh.1 hn hs hr,
    hh.agreesOn (hC.resize_refused hh.1 hn hs hr)⟩
  free {out s block t} hh hf := by
    have hsame : AgreesOn (out ++ others) s.2.memory t.2.memory := hC.free hh.1 hf
    exact ⟨hB.free hh.1 hf, hh.2.trans (hsame.subset (List.subset_append_right _ _))⟩

theorem Custody.framed (hC : Custody B holds) (others : List Slice) (m₀ : Memory) :
    Custody B (Framed holds others m₀) where
  alloc hh ha := (hC.alloc hh.1 ha).subset (List.subset_append_left _ _)
  resize hh hn hs hr := by
    obtain ⟨hsame, hcarried⟩ := hC.resize hh.1 hn hs hr
    exact ⟨hsame.subset (List.subset_append_left _ _), hcarried⟩
  resize_refused hh hn hs hr :=
    (hC.resize_refused hh.1 hn hs hr).subset (List.subset_append_left _ _)
  free hh hf := (hC.free hh.1 hf).subset (List.subset_append_left _ _)

theorem Keeper.framed (h : Keeper B holds) (others : List Slice) (m₀ : Memory) :
    Keeper B (Framed holds others m₀) :=
  ⟨h.supply.framed h.custody others m₀, h.custody.framed others m₀⟩

theorem Contract.framed (h : Contract B holds) (others : List Slice) (m₀ : Memory) :
    Contract B (Framed holds others m₀) :=
  ⟨h.supply.framed h.custody others m₀, h.custody.framed others m₀⟩

end AllocChain
