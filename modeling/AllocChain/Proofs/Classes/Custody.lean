import AllocChain.Proofs.Classes.Tenant
import AllocChain.Proofs.Lending

/-!
The bytes in the places of a general-purpose allocator. The allocator writes no byte itself except
to copy a block that it moves, so over an allocator that leaves the bytes of others alone it does
so too (`alloc_agreesOn`, `free_agreesOn`), and over one that meets the interface contract it meets
the contract (`GeneralPurpose.lending`).
-/

namespace AllocChain.GeneralPurpose

open Memory

variable {β : Type} {B : Allocator β} {holds : List Slice → β × Machine → Prop}
  {s t : (GeneralPurpose × β) × Machine} {out : List Slice} {mem old block : Slice}
  {size align : Nat} {r : Answer}

/-! ### What is held keeps its bytes -/

theorem Roomed.agreesOn (hC : Custody B holds) {c : Nat} {found : Except AllocError Nat}
    (h : Roomed B c s found t) (hh : holds s.1.1.held (s.1.2, s.2)) :
    AgreesOn s.1.1.held s.2.memory t.2.memory := by
  cases h with
  | found _ _ => exact .refl _ _
  | refused hcall => exact hC.alloc hh hcall
  | created _ hcall _ => exact hC.alloc hh hcall

/-- A request changes no byte of what was held. -/
theorem alloc_agreesOn (hC : Custody B holds)
    (h : GeneralPurpose.alloc B size align s = .ok (r, t))
    (hh : holds s.1.1.held (s.1.2, s.2)) : AgreesOn s.1.1.held s.2.memory t.2.memory := by
  rcases alloc_ok h with ⟨_, _, rfl⟩ | ⟨_, _, ⟨c, _, hsmall⟩ | hlarge⟩
  · exact .refl _ _
  · rcases allocSmall_ok hsmall with
      ⟨_, _, _, hroom⟩ | ⟨_, u, _, _, _, _, _, hroom, _, _, _, _, rfl⟩
    · exact hroom.agreesOn hC hh
    · have hsame := hroom.agreesOn hC hh
      exact hsame
  · obtain ⟨u, ⟨_, _, hcall, rfl⟩ | ⟨block, _, _, hcall, rfl⟩⟩ := allocLarge_ok hlarge
    · exact hC.alloc hh hcall
    · exact hC.alloc hh hcall

theorem free_agreesOn {fit : Nat → Nat → Slice → Prop} (hB : Ledger B fit holds)
    (hC : Custody B holds) (h : free B mem s = .ok ((), t))
    (hh : holds s.1.1.held (s.1.2, s.2)) : AgreesOn t.1.1.held s.2.memory t.2.memory := by
  cases free_ok h with
  | null _ => exact .refl _ _
  | unknown _ _ => exact .refl _ _
  | slot _ _ hrel =>
    cases hrel with
    | kept _ _ _ _ => exact .refl _ _
    | emptied hc hi _ _ _ hfree =>
      exact hC.free (hB.report (hB.perm (held_eraseIdx hc hi) hh)) hfree
  | large _ _ hi hfree =>
    obtain ⟨rest, hall, _, hswap⟩ := held_large hi
    have hsame := hC.free (hB.report (hB.perm hall hh)) hfree
    exact hsame.subset hswap.subset

/-! ### The blocks keep their bytes -/

namespace Kept

theorem agreesOn (hB : Supply B Slice.Meets holds) (h : Kept holds out s) {m m' : Memory}
    (ha : AgreesOn s.1.1.held m m') : AgreesOn out m m' :=
  ha.inside fun _ hb => h.inside hB hb

theorem addr_ne_zero (hB : Supply B Slice.Meets holds) (h : Kept holds out s)
    (hne : ∀ mem ∈ s.1.1.held, mem.addr ≠ 0) (hb : block ∈ out) : block.addr ≠ 0 := by
  obtain ⟨mem, hmem, hin⟩ := h.inside hB hb
  have hlow : mem.addr ≤ block.addr := hin.1
  have hmem := hne mem hmem
  omega

theorem nonnull (hB : Contract B holds) (h : Kept (NonNull holds) out s) (hb : block ∈ out) :
    block.addr ≠ 0 :=
  h.addr_ne_zero hB.meets h.backed.2 hb

/-- A block that is named as it is outstanding is the one that is given back. -/
theorem free_self (hB : Supply B Slice.Meets holds) (h : Kept holds (old :: out) s)
    (hn : old.isNull = false) (hf : GeneralPurpose.free B old s = .ok ((), t)) :
    Kept holds out t := by
  rcases h.free hB hf with ⟨hbad, _⟩ | ⟨_, ⟨_, hnone⟩ | ⟨block, rest, hp, haddr, hk⟩⟩
  · rw [hn] at hbad
    cases hbad
  · exact absurd rfl (hnone old List.mem_cons_self)
  · obtain rfl : block = old :=
      h.eq_of_addr hB (hp.mem_iff.2 List.mem_cons_self) List.mem_cons_self haddr
    exact hk.perm hp.cons_inv.symm

/-- A block that is named as it is outstanding is the one that is replaced. -/
theorem adjust_self (hB : Supply B Slice.Meets holds) (h : Kept holds (old :: out) s)
    (hn : old.isNull = false) (hs : size ≠ 0) {k : Nat}
    (ha : GeneralPurpose.adjust B old size (2 ^ k) s = .ok (r, t)) :
    (∃ e, r = .error e ∧ Kept holds (old :: out) t) ∨
      ∃ block, r = .ok block ∧ block.Meets size (2 ^ k) ∧ Kept holds (block :: out) t := by
  rcases h.adjust hB hn hs ha with hrefused | ⟨block, old', rest, rfl, hp, haddr, hmeets, hk⟩
  · exact .inl hrefused
  · obtain rfl : old' = old :=
      h.eq_of_addr hB (hp.mem_iff.2 List.mem_cons_self) List.mem_cons_self haddr
    exact .inr ⟨block, rfl, hmeets, hk.perm (hp.cons_inv.symm.cons block)⟩

theorem starts_large (hB : Supply B Slice.Meets holds) (h : Kept holds out s) {i : Nat}
    {large : Slice} (hi : s.1.1.large[i]? = some large) (hb : block ∈ out)
    (hhas : large.Has block.addr) : block.Starts large := by
  obtain ⟨place, hp, hst⟩ := h.fills.starts block hb
  obtain ⟨o, ho⟩ := mem_places.1 hp
  have hlarge : s.1.1.Spans (.large i) large := hi
  have hhas' : place.Has block.addr := hst.inside.has (Slice.has_addr hst.pos)
  obtain rfl := ho.eq_of_has (h.spread hB) hlarge hhas' hhas
  rwa [ho.unique hlarge] at hst

/-- All blocks but that in a large one lie in the rest of what is held. -/
theorem inside_rest (hB : Supply B Slice.Meets holds) (h : Kept holds (old :: out) s) {i : Nat}
    {large : Slice} {rest : List Slice} (hi : s.1.1.large[i]? = some large)
    (haddr : large.addr = old.addr) (hall : s.1.1.held.Perm (large :: rest)) (hb : block ∈ out) :
    ∃ mem ∈ rest, block.Inside mem := by
  have hmem : block ∈ old :: out := List.mem_cons_of_mem _ hb
  have hpos : 0 < block.len := by
    obtain ⟨_, _, hst⟩ := h.fills.starts block hmem
    exact hst.pos
  obtain ⟨mem, hheld, hin⟩ := h.inside hB hmem
  rcases List.mem_cons.1 (hall.mem_iff.1 hheld) with rfl | hother
  · have hst := h.starts_large hB hi hmem (hin.has (Slice.has_addr hpos))
    obtain rfl : block = old := h.eq_of_addr hB hmem List.mem_cons_self (hst.addr.trans haddr)
    have hd := (List.pairwise_cons.1 (h.apart hB)).1 block hb
    exact absurd (Slice.has_addr hpos) (hd block.addr (Slice.has_addr hpos))
  · exact ⟨mem, hother, hin⟩

/-- A block that is replaced without being moved passes its bytes on, and no other block loses
one. -/
theorem exchanged (hB : Contract B holds) (h : Kept (NonNull holds) (old :: out) s)
    (hn : old.isNull = false) (hs : size ≠ 0) {k : Nat}
    (ha : GeneralPurpose.adjust B old size (2 ^ k) s = .ok (r, t)) :
    Exchanged (Kept (NonNull holds)) old out size (2 ^ k) s r t ∨
      AllocChain.relocate (GeneralPurpose.alloc B) (GeneralPurpose.free B) old size (2 ^ k) s =
        .ok (r, t) := by
  have hS := hB.meets
  have hC := hB.nonNull.custody
  have hkept := h.adjust_self hS hn hs ha
  have hrefused : ∀ {e}, r = .error e →
      AgreesOn (old :: out) s.2.memory t.2.memory →
      Exchanged (Kept (NonNull holds)) old out size (2 ^ k) s r t := by
    rintro e rfl hsame
    rcases hkept with ⟨_, _, hk⟩ | ⟨_, hbad, _⟩
    · exact ⟨hk, hsame⟩
    · cases hbad
  have hanswered : ∀ {block}, r = .ok block → AgreesOn out s.2.memory t.2.memory →
      Carried old block s.2.memory t.2.memory →
      Exchanged (Kept (NonNull holds)) old out size (2 ^ k) s r t := by
    rintro block rfl hsame hcarried
    rcases hkept with ⟨_, hbad, _⟩ | ⟨_, heq, hmeets, hk⟩
    · cases hbad
    · cases heq
      exact ⟨hmeets, hk, hsame, hcarried⟩
  cases adjust_ok ha with
  | unknown => exact .inl (hrefused rfl (.refl _ _))
  | inSlot _ _ => exact .inl (hanswered rfl (.refl _ _) fun i _ _ => rfl)
  | moved _ hreloc => exact .inr hreloc
  | refused howner hi hcall =>
    obtain ⟨rest, hall, _⟩ := held_large hi
    have hsame := hC.resize_refused (hS.perm hall h.backed) (owner_large_isNull howner hi hn) hs
      hcall
    exact .inl (hrefused rfl (h.agreesOn hS (hsame.subset hall.subset)))
  | @behind i large resized u es howner hi hcall =>
    obtain ⟨rest, hall, _⟩ := held_large hi
    have haddr := owner_large_addr howner hi
    obtain ⟨hsame, hcarried⟩ := hC.resize (hS.perm hall h.backed)
      (owner_large_isNull howner hi hn) hs hcall
    refine .inl (hanswered rfl ?_ ?_)
    · exact hsame.inside fun block hb => h.inside_rest hS hi haddr hall hb
    · intro i hlt hlt'
      have hhas : large.Has old.addr := by
        rw [← haddr]
        exact Slice.has_addr (h.nonempty large (List.mem_of_getElem? hi))
      have hst := h.starts_large hS hi List.mem_cons_self hhas
      rw [← haddr]
      exact hcarried i (Nat.lt_of_lt_of_le hlt hst.len) hlt'

end Kept

/-- A general-purpose allocator over one that meets the contract moves what changes its class. -/
theorem lending (hB : Contract B holds) :
    Lending (allocator B) (adjust B) (Kept (NonNull holds)) := by
  have hS := hB.meets
  have hC := hB.nonNull.custody
  constructor
  case resize_eq => rfl
  case perm => exact fun hp hh => hh.perm hp
  case write => exact fun hh hw => hh.write hS hw
  case apart => exact fun hh => hh.apart hS
  case bounded =>
    intro out s hh block hb
    obtain ⟨mem, hmem, hin⟩ := hh.inside hS hb
    exact Nat.lt_of_le_of_lt hin.2 (hS.bounded hh.backed mem hmem)
  case nonnull => exact fun hh _ hb => hh.nonnull hB hb
  case alloc =>
    intro out s size align block t hh ha
    have hsame := hh.agreesOn hS (alloc_agreesOn hC ha hh.backed)
    rcases hh.alloc hS ha with ⟨_, hbad, _⟩ | ⟨_, heq, _, hmeets, hk⟩
    · cases hbad
    · cases heq
      exact ⟨hmeets, hk, hsame⟩
  case alloc_refused =>
    intro out s size align e t hh ha
    have hsame := hh.agreesOn hS (alloc_agreesOn hC ha hh.backed)
    rcases hh.alloc hS ha with ⟨_, _, hk⟩ | ⟨_, hbad, _⟩
    · exact ⟨hk, hsame⟩
    · cases hbad
  case free =>
    intro out s block t hh hf
    have hn := Slice.isNull_eq_false.2 (hh.nonnull hB List.mem_cons_self)
    have hk := hh.free_self hS hn hf
    exact ⟨hk, hk.agreesOn hS (free_agreesOn hS.toLedger hC hf hh.backed)⟩
  case adjust =>
    rintro out s old size align r t hh hs ⟨k, rfl⟩ ha
    have hn := Slice.isNull_eq_false.2 (hh.nonnull hB List.mem_cons_self)
    exact hh.exchanged hB hn (Nat.ne_of_gt hs) ha

end AllocChain.GeneralPurpose
