import AllocChain.Allocator
import AllocChain.Proofs.Extent
import AllocChain.Proofs.Inversion

/-!
What one allocator may expect of another. `holds out s` stands for "in state `s` the blocks that
were handed out and not taken back are those of `out`", whatever the allocator does to keep track
of them. `Ledger` says how the three operations change that list and what kind of blocks they hand
out, and `Supply` that these lie apart; `Custody` says that the bytes of all other blocks are left
alone, and that a resize carries the bytes that both blocks have room for. They only speak about
calls that end without a fault and that name a block of the list.
-/

namespace AllocChain

/-- The block has room for `size` bytes and is aligned to `align`. -/
def Slice.Meets (size align : Nat) (block : Slice) : Prop :=
  size ≤ block.len ∧ normalizeAlign align ∣ block.addr

/-- A block that meets the request and is not null. -/
def Slice.Answers (size align : Nat) (block : Slice) : Prop :=
  block.Meets size align ∧ block.addr ≠ 0

/-- A block that is not null. -/
def Slice.Present (_size _align : Nat) (block : Slice) : Prop := block.addr ≠ 0

/-- Any block at all. -/
def Slice.Any (_size _align : Nat) (_block : Slice) : Prop := True

namespace Memory

/-- The bytes of the blocks are the same in `m'` as in `m`. -/
def AgreesOn (blocks : List Slice) (m m' : Memory) : Prop :=
  ∀ block ∈ blocks, ∀ a, block.Has a → m'.byte a = m.byte a

/-- All bytes that are in none of the blocks are the same in `m'` as in `m`. -/
def WrittenIn (blocks : List Slice) (m m' : Memory) : Prop :=
  ∀ a, (∀ block ∈ blocks, ¬ block.Has a) → m'.byte a = m.byte a

/-- The bytes that both slices have room for are those of `source` before. -/
def Carried (source target : Slice) (m m' : Memory) : Prop :=
  ∀ i, i < source.len → i < target.len → m'.byte (target.addr + i) = m.byte (source.addr + i)

theorem AgreesOn.refl (blocks : List Slice) (m : Memory) : AgreesOn blocks m m :=
  fun _ _ _ _ => rfl

theorem AgreesOn.trans {blocks : List Slice} {m m' m'' : Memory} (h : AgreesOn blocks m m')
    (h' : AgreesOn blocks m' m'') : AgreesOn blocks m m'' :=
  fun block hb a ha => (h' block hb a ha).trans (h block hb a ha)

/-- Blocks inside blocks whose bytes stay keep theirs. -/
theorem AgreesOn.inside {blocks outer : List Slice} {m m' : Memory} (h : AgreesOn outer m m')
    (hin : ∀ block ∈ blocks, ∃ o ∈ outer, block.Inside o) : AgreesOn blocks m m' := by
  intro block hb a ha
  obtain ⟨o, ho, hbo⟩ := hin block hb
  exact h o ho a (hbo.has ha)

theorem AgreesOn.subset {blocks blocks' : List Slice} {m m' : Memory} (h : AgreesOn blocks' m m')
    (hs : blocks ⊆ blocks') : AgreesOn blocks m m' :=
  fun block hb => h block (hs hb)

theorem AgreesOn.append {blocks blocks' : List Slice} {m m' : Memory} (h : AgreesOn blocks m m')
    (h' : AgreesOn blocks' m m') : AgreesOn (blocks ++ blocks') m m' := by
  intro block hb
  rcases List.mem_append.1 hb with hl | hr
  · exact h block hl
  · exact h' block hr

theorem WrittenIn.refl (blocks : List Slice) (m : Memory) : WrittenIn blocks m m :=
  fun _ _ => rfl

theorem WrittenIn.trans {blocks : List Slice} {m m' m'' : Memory} (h : WrittenIn blocks m m')
    (h' : WrittenIn blocks m' m'') : WrittenIn blocks m m'' :=
  fun a ha => (h' a ha).trans (h a ha)

theorem WrittenIn.inside {blocks outer : List Slice} {m m' : Memory} (h : WrittenIn blocks m m')
    (hin : ∀ block ∈ blocks, ∃ o ∈ outer, block.Inside o) : WrittenIn outer m m' := by
  intro a ha
  refine h a ?_
  intro block hb hba
  obtain ⟨o, ho, hbo⟩ := hin block hb
  exact ha o ho (hbo.has hba)

theorem WrittenIn.mem {block : Slice} {blocks : List Slice} {m m' : Memory}
    (h : WrittenIn [block] m m') (hb : block ∈ blocks) : WrittenIn blocks m m' := by
  refine h.inside ?_
  intro b hmem
  rw [List.mem_singleton] at hmem
  subst hmem
  exact ⟨b, hb, .refl _⟩

/-- A write in one block leaves disjoint ones alone. -/
theorem WrittenIn.agreesOn {block : Slice} {blocks : List Slice} {m m' : Memory}
    (h : WrittenIn [block] m m') (hd : ∀ other ∈ blocks, block.Disjoint other) :
    AgreesOn blocks m m' := by
  intro other ho a ha
  refine h a ?_
  intro b hb hba
  rw [List.mem_singleton] at hb
  subst hb
  exact hd other ho a hba ha

theorem writtenIn_write (m : Memory) (addr len : Nat) (f : Nat → UInt8) :
    WrittenIn [⟨addr, len⟩] m (m.write addr len f) := by
  intro a ha
  have := ha _ (List.mem_singleton_self _)
  simp only [Slice.Has] at this
  simp only [byte_write, if_neg this]

theorem writtenIn_copyCommon (m : Memory) (source target : Slice) :
    WrittenIn [target] m (m.copyCommon source target) := by
  simp only [copyCommon, copy]
  refine (writtenIn_write m target.addr _ _).inside ?_
  intro block hb
  rw [List.mem_singleton] at hb
  subst hb
  exact ⟨target, List.mem_singleton_self _, Nat.le_refl _,
    Nat.add_le_add_left (Slice.common_le _ _).2 _⟩

/-- Copying carries the bytes, unless one of the slices is null. -/
theorem carried_copyCommon {m : Memory} {source target : Slice} (hs : source.addr ≠ 0)
    (ht : target.addr ≠ 0) : Carried source target m (m.copyCommon source target) := by
  intro i hi hi'
  have hin : target.addr ≤ target.addr + i ∧
      target.addr + i < target.addr + source.common target := by
    rw [Slice.common_eq hs ht]
    omega
  simp only [copyCommon, byte_copy, if_pos hin]
  rw [Nat.add_sub_cancel_left]

end Memory

open Memory

variable {β : Type}

/-- Who has what: the operations of `B` keep the list of outstanding blocks, and every block handed
out is one that `fit` admits. -/
structure Ledger (B : Allocator β) (fit : Nat → Nat → Slice → Prop)
    (holds : List Slice → β × Machine → Prop) : Prop where
  perm {out out' s} : out.Perm out' → holds out s → holds out' s
  report {out b m es} : holds out (b, m) → holds out (b, m.report es)
  alloc {out s size align block t} : holds out s → B.alloc size align s = .ok (.ok block, t) →
    fit size align block ∧ holds (block :: out) t
  alloc_refused {out s size align e t} : holds out s →
    B.alloc size align s = .ok (.error e, t) → holds out t
  resize {out s old size align block t} : holds (old :: out) s → old.isNull = false → size ≠ 0 →
    B.resize old size align s = .ok (.ok block, t) → fit size align block ∧ holds (block :: out) t
  resize_refused {out s old size align e t} : holds (old :: out) s → old.isNull = false →
    size ≠ 0 → B.resize old size align s = .ok (.error e, t) → holds (old :: out) t
  free {out s block t} : holds (block :: out) s → B.free block s = .ok ((), t) → holds out t

/-- The outstanding blocks are pairwise disjoint and do not wrap round, and they may be written. -/
structure Supply (B : Allocator β) (fit : Nat → Nat → Slice → Prop)
    (holds : List Slice → β × Machine → Prop) : Prop extends Ledger B fit holds where
  write {out b m m'} : holds out (b, m) → WrittenIn out m.memory m'.memory → holds out (b, m')
  apart {out s} : holds out s → out.Pairwise Slice.Disjoint
  bounded {out s} : holds out s → ∀ block ∈ out, block.Bounded

/-- Every allocator keeps the ledger on which nothing is written. -/
theorem Ledger.blank (B : Allocator β) : Ledger B Slice.Any fun _ _ => True where
  perm _ _ := trivial
  report _ := trivial
  alloc _ _ := ⟨trivial, trivial⟩
  alloc_refused _ _ := trivial
  resize _ _ _ _ := ⟨trivial, trivial⟩
  resize_refused _ _ _ _ := trivial
  free _ _ := trivial

/-- A supply of blocks that fit is one of blocks that fit less tightly. -/
theorem Supply.mono {B : Allocator β} {fit fit' : Nat → Nat → Slice → Prop}
    {holds : List Slice → β × Machine → Prop} (h : Supply B fit holds)
    (hfit : ∀ size align block, fit size align block → fit' size align block) :
    Supply B fit' holds :=
  { h with
    alloc := fun hh ha => ⟨hfit _ _ _ (h.alloc hh ha).1, (h.alloc hh ha).2⟩
    resize := fun hh hn hs hr =>
      ⟨hfit _ _ _ (h.resize hh hn hs hr).1, (h.resize hh hn hs hr).2⟩ }

/-- Whose bytes are whose: no operation of `B` changes a byte of a block that it is not about. -/
structure Custody (B : Allocator β) (holds : List Slice → β × Machine → Prop) : Prop where
  alloc {out s size align r t} : holds out s → B.alloc size align s = .ok (r, t) →
    AgreesOn out s.2.memory t.2.memory
  resize {out s old size align block t} : holds (old :: out) s → old.isNull = false → size ≠ 0 →
    B.resize old size align s = .ok (.ok block, t) →
    AgreesOn out s.2.memory t.2.memory ∧ Carried old block s.2.memory t.2.memory
  resize_refused {out s old size align e t} : holds (old :: out) s → old.isNull = false →
    size ≠ 0 → B.resize old size align s = .ok (.error e, t) →
    AgreesOn (old :: out) s.2.memory t.2.memory
  free {out s block t} : holds (block :: out) s → B.free block s = .ok ((), t) →
    AgreesOn out s.2.memory t.2.memory

/-- The interface contract: blocks that answer the request, and bytes that stay. -/
structure Contract (B : Allocator β) (holds : List Slice → β × Machine → Prop) : Prop where
  supply : Supply B Slice.Answers holds
  custody : Custody B holds

/-- The contract without what a block is good for: blocks that are not null, and bytes that stay. -/
structure Keeper (B : Allocator β) (holds : List Slice → β × Machine → Prop) : Prop where
  supply : Supply B Slice.Present holds
  custody : Custody B holds

theorem Contract.keeper {B : Allocator β} {holds : List Slice → β × Machine → Prop}
    (h : Contract B holds) : Keeper B holds :=
  ⟨h.supply.mono fun _ _ _ hans => hans.2, h.custody⟩

/-- The blocks are outstanding, and none of them is null. -/
def NonNull (holds : List Slice → β × Machine → Prop) (out : List Slice) (s : β × Machine) : Prop :=
  holds out s ∧ ∀ block ∈ out, block.addr ≠ 0

/-- If no block that is handed out is null, no outstanding block ever is. -/
theorem Supply.nonNull {B : Allocator β} {fit : Nat → Nat → Slice → Prop}
    {holds : List Slice → β × Machine → Prop} (h : Supply B fit holds)
    (hfit : ∀ size align block, fit size align block → block.addr ≠ 0) :
    Supply B fit (NonNull holds) where
  perm hp hh := ⟨h.perm hp hh.1, fun block hb => hh.2 block (hp.mem_iff.2 hb)⟩
  report hh := ⟨h.report hh.1, hh.2⟩
  write hh hw := ⟨h.write hh.1 hw, hh.2⟩
  apart hh := h.apart hh.1
  bounded hh := h.bounded hh.1
  alloc hh ha := by
    obtain ⟨hans, hnew⟩ := h.alloc hh.1 ha
    exact ⟨hans, hnew, List.forall_mem_cons.2 ⟨hfit _ _ _ hans, hh.2⟩⟩
  alloc_refused hh ha := ⟨h.alloc_refused hh.1 ha, hh.2⟩
  resize hh hn hs hr := by
    obtain ⟨hans, hnew⟩ := h.resize hh.1 hn hs hr
    exact ⟨hans, hnew, List.forall_mem_cons.2 ⟨hfit _ _ _ hans, (List.forall_mem_cons.1 hh.2).2⟩⟩
  resize_refused hh hn hs hr := ⟨h.resize_refused hh.1 hn hs hr, hh.2⟩
  free hh hf := ⟨h.free hh.1 hf, (List.forall_mem_cons.1 hh.2).2⟩

theorem Custody.nonNull {B : Allocator β} {holds : List Slice → β × Machine → Prop}
    (h : Custody B holds) : Custody B (NonNull holds) where
  alloc hh := h.alloc hh.1
  resize hh := h.resize hh.1
  resize_refused hh := h.resize_refused hh.1
  free hh := h.free hh.1

theorem Keeper.nonNull {B : Allocator β} {holds : List Slice → β × Machine → Prop}
    (h : Keeper B holds) : Keeper B (NonNull holds) :=
  ⟨h.supply.nonNull fun _ _ _ => id, h.custody.nonNull⟩

theorem Contract.nonNull {B : Allocator β} {holds : List Slice → β × Machine → Prop}
    (h : Contract B holds) : Contract B (NonNull holds) :=
  ⟨h.supply.nonNull fun _ _ _ hans => hans.2, h.custody.nonNull⟩

/-- What the users of a contract that do not mind null have to know. -/
theorem Contract.meets {B : Allocator β} {holds : List Slice → β × Machine → Prop}
    (h : Contract B holds) : Supply B Slice.Meets (NonNull holds) :=
  h.nonNull.supply.mono fun _ _ _ hans => hans.1

end AllocChain
