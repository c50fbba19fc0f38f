import AllocChain.Proofs.Classes.Change
import AllocChain.Proofs.Contract
import AllocChain.Proofs.Request

/-!
What the operations of a general-purpose allocator do, case by case, when they end without a fault:
which calls they make on the allocator behind, and how the table looks afterwards. Nothing is said
here about the blocks; what is held changes as the ledger of the allocator behind says
(`alloc_held`, `free_held`, `adjust_held`, `destroy_ok`).
-/

namespace AllocChain.GeneralPurpose

variable {β : Type} {B : Allocator β} {s t : (GeneralPurpose × β) × Machine} {mem : Slice}
  {c i k size align : Nat} {r : Answer}

/-- How a bucket with room is come by: there is one, or a new one is put up. -/
inductive Roomed (B : Allocator β) (c : Nat) (s : (GeneralPurpose × β) × Machine) :
    Except AllocError Nat → (GeneralPurpose × β) × Machine → Prop
  | found {bs index} : s.1.1.classes.toList[c]? = some bs →
      bs.findIdx? (!·.isFull) = some index → Roomed B c s (.ok index) s
  | refused {size align e u} : B.alloc size align (s.1.2, s.2) = .ok (.error e, u) →
      Roomed B c s (.error e) ((s.1.1, u.1), u.2)
  | created {bs storage u es occupied} : s.1.1.classes.toList[c]? = some bs →
      B.alloc (s.1.1.bucketSize / 2 ^ c * 2 ^ c) (2 ^ c) (s.1.2, s.2) = .ok (.ok storage, u) →
      (s.1.1.occupied.insert c).result = .ok occupied →
      Roomed B c s (.ok bs.length)
        (({ s.1.1.setBuckets c (bs ++ [.new storage (2 ^ c) (s.1.1.bucketSize / 2 ^ c)]) with
          occupied }, u.1), u.2.report es)

theorem bucketWithRoom_ok {found : Except AllocError Nat}
    (h : bucketWithRoom B c s = .ok (found, t)) : Roomed B c s found t := by
  simp only [bucketWithRoom, Act.bind_ok, Act.own_ok, Act.lift_ok] at h
  obtain ⟨_, _, ⟨rfl, rfl⟩, bs, _, ⟨hbs, rfl⟩, h⟩ := h
  rw [bucketsOf_ok] at hbs
  cases hfind : bs.findIdx? (!·.isFull) with
  | some index =>
    simp only [hfind, Act.pure_ok] at h
    obtain ⟨rfl, rfl⟩ := h
    exact .found hbs hfind
  | none =>
    simp only [hfind, Act.bind_ok, Act.lift_ok, Act.below_ok] at h
    obtain ⟨storageSize, _, ⟨hmul, rfl⟩, answer, _, ⟨u, hcall, rfl⟩, h⟩ := h
    have hsize : storageSize = s.1.1.bucketSize / 2 ^ c * 2 ^ c := by
      simp only [Word.mul] at hmul
      split at hmul
      · cases hmul
        rfl
      · cases hmul
    rw [hsize] at hcall
    cases answer with
    | error e =>
      obtain ⟨rfl, rfl⟩ := Act.pure_ok.1 h
      exact .refused hcall
    | ok storage =>
      simp only [Act.bind_ok, Act.emit_ok, Act.lift_ok, Act.setOwn_ok, Act.pure_ok] at h
      obtain ⟨_, _, rfl, occupied, _, ⟨hocc, rfl⟩, _, _, rfl, rfl, rfl⟩ := h
      exact .created hbs hcall hocc

/-- How a small request is served: from a slot of a bucket with room, unless there is none. -/
inductive Slotted (B : Allocator β) (c size : Nat) (s : (GeneralPurpose × β) × Machine) :
    Answer → (GeneralPurpose × β) × Machine → Prop
  | refused {e t} : Roomed B c s (.error e) t → Slotted B c size s (.error e) t
  | full {index u bs b e} : Roomed B c s (.ok index) u → u.1.1.classes.toList[c]? = some bs →
      bs[index]? = some b → b.takeSlot = .ok none → Slotted B c size s (.error e) u
  | taken {index u bs b addr b' es} : Roomed B c s (.ok index) u →
      u.1.1.classes.toList[c]? = some bs → bs[index]? = some b →
      b.takeSlot = .ok (some (addr, b')) →
      Slotted B c size s (.ok ⟨addr, size⟩)
        ((u.1.1.setBuckets c (bs.set index b'), u.1.2), u.2.report es)

theorem allocSmall_slotted (h : allocSmall B c size s = .ok (r, t)) : Slotted B c size s r t := by
  simp only [allocSmall] at h
  obtain ⟨found, u, hroom, h⟩ := Act.bind_ok.1 h
  have hroomed := bucketWithRoom_ok hroom
  cases found with
  | error e =>
    obtain ⟨rfl, rfl⟩ := Act.pure_ok.1 h
    exact .refused hroomed
  | ok index =>
    simp only [Act.bind_ok, Act.own_ok, Act.lift_ok] at h
    obtain ⟨_, _, ⟨rfl, rfl⟩, bs, _, ⟨hbs, rfl⟩, b, _, ⟨hb, rfl⟩, taken, _, ⟨htake, rfl⟩, h⟩ := h
    rw [bucketsOf_ok] at hbs
    rw [elementAt_ok] at hb
    cases taken with
    | none =>
      obtain ⟨rfl, rfl⟩ := Act.pure_ok.1 h
      exact .full hroomed hbs hb htake
    | some taken =>
      obtain ⟨addr, b'⟩ := taken
      simp only [Act.bind_ok, Act.setOwn_ok, Act.emit_ok, Act.pure_ok] at h
      obtain ⟨_, _, rfl, _, _, rfl, rfl, rfl⟩ := h
      exact .taken hroomed hbs hb htake

/-- A small request fails where no bucket has room, or takes a slot of one that has. -/
theorem allocSmall_ok (h : allocSmall B c size s = .ok (r, t)) :
    (∃ e found, r = .error e ∧ Roomed B c s found t) ∨
      ∃ index u bs b addr b' es, Roomed B c s (.ok index) u ∧
        u.1.1.classes.toList[c]? = some bs ∧ bs[index]? = some b ∧
        b.takeSlot = .ok (some (addr, b')) ∧ r = .ok ⟨addr, size⟩ ∧
        t = ((u.1.1.setBuckets c (bs.set index b'), u.1.2), u.2.report es) := by
  cases allocSmall_slotted h with
  | refused hroom => exact .inl ⟨_, _, rfl, hroom⟩
  | full hroom _ _ _ => exact .inl ⟨_, _, rfl, hroom⟩
  | taken hroom hbs hb htake =>
    exact .inr ⟨_, _, _, _, _, _, _, hroom, hbs, hb, htake, rfl, rfl⟩

theorem allocLarge_ok (h : allocLarge B size align s = .ok (r, t)) :
    ∃ u, (∃ e, r = .error e ∧ B.alloc size align (s.1.2, s.2) = .ok (.error e, u) ∧
        t = ((s.1.1, u.1), u.2)) ∨
      ∃ block es, r = .ok block ∧ B.alloc size align (s.1.2, s.2) = .ok (.ok block, u) ∧
        t = (({ s.1.1 with large := s.1.1.large ++ [block] }, u.1), u.2.report es) := by
  simp only [allocLarge] at h
  obtain ⟨answer, _, hbelow, h⟩ := Act.bind_ok.1 h
  obtain ⟨u, hcall, rfl⟩ := Act.below_ok.1 hbelow
  cases answer with
  | error e =>
    obtain ⟨rfl, rfl⟩ := Act.pure_ok.1 h
    exact ⟨u, .inl ⟨e, rfl, hcall, rfl⟩⟩
  | ok block =>
    simp only [Act.bind_ok, Act.own_ok, Act.setOwn_ok, Act.emit_ok, Act.pure_ok] at h
    obtain ⟨_, _, ⟨rfl, rfl⟩, _, _, rfl, _, _, rfl, rfl, rfl⟩ := h
    exact ⟨u, .inr ⟨block, _, rfl, hcall, rfl⟩⟩

theorem serve_eq {found : Option Nat} (hclass : s.1.1.sizeClass size align = .ok found) :
    serve B size align s = (match found with
      | some c => allocSmall B c size
      | none => allocLarge B size align) s := by
  obtain ⟨⟨g, b⟩, m⟩ := s
  simp only at hclass
  cases found <;> simp only [serve, Act.bind_apply, Act.own_apply, Except.bind, Act.lift_apply,
    hclass, Act.mapError_ok, Except.map]

theorem alloc_ok (h : GeneralPurpose.alloc B size align s = .ok (r, t)) :
    (∃ e, r = .error e ∧ t = s) ∨
      0 < size ∧ (∃ k, normalizeAlign align = 2 ^ k) ∧
        ((∃ c, s.1.1.sizeClass size (normalizeAlign align) = .ok (some c) ∧
            allocSmall B c size s = .ok (r, t)) ∨
          allocLarge B size (normalizeAlign align) s = .ok (r, t)) := by
  rcases allocBy_ok h with hrefused | ⟨hs, hpow, hserve⟩
  · exact .inl hrefused
  refine .inr ⟨hs, hpow, ?_⟩
  obtain ⟨found, hclass⟩ := s.1.1.sizeClass_returns size (normalizeAlign align)
  rw [serve_eq hclass] at hserve
  cases found with
  | none => exact .inr hserve
  | some c => exact .inl ⟨c, hclass, hserve⟩

/-- How a slot is given back: its bucket stays, or goes back when that was its last. -/
inductive Released (B : Allocator β) (c i k : Nat) (s : (GeneralPurpose × β) × Machine) :
    (GeneralPurpose × β) × Machine → Prop
  | kept {bs b b' es} : s.1.1.classes.toList[c]? = some bs → bs[i]? = some b →
      b.releaseSlot k = .ok b' → b'.usedCount ≠ 0 →
      Released B c i k s ((s.1.1.setBuckets c (bs.set i b'), s.1.2), s.2.report es)
  | emptied {bs b b' occupied es u} : s.1.1.classes.toList[c]? = some bs → bs[i]? = some b →
      b.releaseSlot k = .ok b' → b'.usedCount = 0 →
      (if bs.eraseIdx i = [] then (s.1.1.occupied.erase c).result else .ok s.1.1.occupied) =
        .ok occupied →
      B.free b.storage (s.1.2, s.2.report es) = .ok ((), u) →
      Released B c i k s (({ s.1.1.setBuckets c (bs.eraseIdx i) with occupied }, u.1), u.2)

theorem releaseSlot_ok (h : releaseSlot B c i k s = .ok ((), t)) : Released B c i k s t := by
  simp only [releaseSlot, Act.bind_ok, Act.own_ok, Act.lift_ok, Act.emit_ok] at h
  obtain ⟨_, _, ⟨rfl, rfl⟩, bs, _, ⟨hbs, rfl⟩, b, _, ⟨hb, rfl⟩, b', _, ⟨hrel, rfl⟩, _, _, rfl, h⟩ :=
    h
  rw [bucketsOf_ok] at hbs
  rw [elementAt_ok] at hb
  by_cases hzero : b'.usedCount = 0
  · have hstorage := (Bucket.releaseSlot_shape hrel).storage
    simp only [if_pos hzero] at h
    by_cases hlast : bs.eraseIdx i = []
    · simp only [if_pos hlast, Act.bind_ok, Act.lift_ok, Act.setOwn_ok, Act.emit_ok,
        Act.below_ok] at h
      obtain ⟨occupied, _, ⟨hocc, rfl⟩, _, _, rfl, _, _, rfl, u, hfree, rfl⟩ := h
      rw [hstorage, Machine.report_report] at hfree
      exact .emptied hbs hb hrel hzero (by rw [if_pos hlast, hocc]) hfree
    · simp only [if_neg hlast, Act.bind_ok, Act.pure_ok, Act.setOwn_ok, Act.emit_ok,
        Act.below_ok] at h
      obtain ⟨occupied, _, ⟨rfl, rfl⟩, _, _, rfl, _, _, rfl, u, hfree, rfl⟩ := h
      rw [hstorage, Machine.report_report] at hfree
      exact .emptied hbs hb hrel hzero (by rw [if_neg hlast]) hfree
  · simp only [if_neg hzero, Act.setOwn_ok] at h
    rw [h]
    exact .kept hbs hb hrel hzero

theorem releaseLarge_ok (h : releaseLarge B i s = .ok ((), t)) :
    ∃ block es u, s.1.1.large[i]? = some block ∧
      B.free block (s.1.2, s.2.report es) = .ok ((), u) ∧
      t = (({ s.1.1 with large := swapRemove s.1.1.large i }, u.1), u.2) := by
  simp only [releaseLarge] at h
  simp only [Act.bind_ok, Act.own_ok, Act.lift_ok, Act.setOwn_ok, Act.emit_ok, Act.below_ok] at h
  obtain ⟨_, _, ⟨rfl, rfl⟩, block, _, ⟨hi, rfl⟩, _, _, rfl, _, _, rfl, u, hfree, rfl⟩ := h
  exact ⟨block, _, u, elementAt_ok.1 hi, hfree, rfl⟩

/-- What is given back is what the owner of the address names. -/
inductive Freed (B : Allocator β) (mem : Slice) (s : (GeneralPurpose × β) × Machine) :
    (GeneralPurpose × β) × Machine → Prop
  | null : mem.isNull = true → Freed B mem s s
  | unknown {es} : mem.isNull = false → s.1.1.owner mem.addr = .ok none →
      Freed B mem s (s.1, s.2.report es)
  | slot {c i k : Nat} {t : (GeneralPurpose × β) × Machine} : mem.isNull = false →
      s.1.1.owner mem.addr = .ok (some (.slot c i k)) → Released B c i k s t → Freed B mem s t
  | large {i block es u} : mem.isNull = false →
      s.1.1.owner mem.addr = .ok (some (.large i)) → s.1.1.large[i]? = some block →
      B.free block (s.1.2, s.2.report es) = .ok ((), u) →
      Freed B mem s (({ s.1.1 with large := swapRemove s.1.1.large i }, u.1), u.2)

theorem free_ok (h : free B mem s = .ok ((), t)) : Freed B mem s t := by
  simp only [free] at h
  cases hn : mem.isNull with
  | true =>
    simp only [hn, if_true, Act.pure_ok] at h
    rw [h.2]
    exact .null hn
  | false =>
    simp only [hn, Bool.false_eq_true, if_false, Act.bind_ok, Act.own_ok, Act.lift_ok] at h
    obtain ⟨_, _, ⟨rfl, rfl⟩, found, _, ⟨howner, rfl⟩, h⟩ := h
    match found, h with
    | none, h =>
      rw [Act.emit_ok.1 h]
      exact .unknown hn howner
    | some (.slot c i k), h => exact .slot hn howner (releaseSlot_ok h)
    | some (.large i), h =>
      obtain ⟨block, es, u, hi, hfree, rfl⟩ := releaseLarge_ok h
      exact .large hn howner hi hfree

/-- How a block is resized: in its slot, by moving it, or behind. -/
inductive Adjusted (B : Allocator β) (mem : Slice) (size align : Nat)
    (s : (GeneralPurpose × β) × Machine) : Answer → (GeneralPurpose × β) × Machine → Prop
  | unknown {e} : Adjusted B mem size align s (.error e) s
  | inSlot {c i k es} : s.1.1.owner mem.addr = .ok (some (.slot c i k)) →
      s.1.1.sizeClass size align = .ok (some c) →
      Adjusted B mem size align s (.ok ⟨mem.addr, size⟩) (s.1, s.2.report es)
  | moved {c i k : Nat} {r : Answer} {t : (GeneralPurpose × β) × Machine} :
      s.1.1.owner mem.addr = .ok (some (.slot c i k)) →
      relocate (GeneralPurpose.alloc B) (free B) mem size align s = .ok (r, t) →
      Adjusted B mem size align s r t
  | refused {i block e u} : s.1.1.owner mem.addr = .ok (some (.large i)) →
      s.1.1.large[i]? = some block →
      B.resize block size align (s.1.2, s.2) = .ok (.error e, u) →
      Adjusted B mem size align s (.error e) ((s.1.1, u.1), u.2)
  | behind {i block resized u es} : s.1.1.owner mem.addr = .ok (some (.large i)) →
      s.1.1.large[i]? = some block →
      B.resize block size align (s.1.2, s.2) = .ok (.ok resized, u) →
      Adjusted B mem size align s (.ok resized)
        (({ s.1.1 with large := s.1.1.large.set i resized }, u.1), u.2.report es)

theorem adjust_ok (h : adjust B mem size align s = .ok (r, t)) :
    Adjusted B mem size align s r t := by
  simp only [adjust, Act.bind_ok, Act.own_ok, Act.lift_ok] at h
  obtain ⟨_, _, ⟨rfl, rfl⟩, found, _, ⟨howner, rfl⟩, h⟩ := h
  match found, h with
  | none, h =>
    obtain ⟨rfl, rfl⟩ := Act.pure_ok.1 h
    exact .unknown
  | some (.slot c i k), h =>
    simp only [Act.bind_ok, Act.lift_ok] at h
    obtain ⟨found, _, ⟨hclass, rfl⟩, h⟩ := h
    by_cases hfound : found = some c
    · subst hfound
      simp only [if_true, Act.bind_ok, Act.emit_ok, Act.pure_ok] at h
      obtain ⟨_, _, rfl, rfl, rfl⟩ := h
      exact .inSlot howner hclass
    · simp only [if_neg hfound] at h
      exact .moved howner h
  | some (.large i), h =>
    simp only [resizeLarge, Act.bind_ok, Act.own_ok, Act.lift_ok, Act.below_ok] at h
    obtain ⟨_, _, ⟨rfl, rfl⟩, block, _, ⟨hi, rfl⟩, answer, _, ⟨u, hcall, rfl⟩, h⟩ := h
    rw [elementAt_ok] at hi
    cases answer with
    | error e =>
      obtain ⟨rfl, rfl⟩ := Act.pure_ok.1 h
      exact .refused howner hi hcall
    | ok resized =>
      simp only [Act.bind_ok, Act.setOwn_ok, Act.emit_ok, Act.pure_ok] at h
      obtain ⟨_, _, rfl, _, _, rfl, rfl, rfl⟩ := h
      exact .behind howner hi hcall

theorem orderly (B : Allocator β) : Orderly (allocator B) where
  alloc_zero {align s r t} h := by
    change allocBy (serve B) 0 align s = .ok (r, t) at h
    exact allocBy_zero h
  resize_null hn := resizeBy_null hn
  resize_zero {block align} hn := by
    change resizeBy (GeneralPurpose.alloc B) (free B) (adjust B) block 0 align = _
    exact resizeBy_zero hn
  free_null {block s t} hn hf := by
    change free B block s = .ok ((), t) at hf
    simp only [free] at hf
    rw [if_pos hn, Act.pure_ok] at hf
    rw [hf.2]
    exact ⟨rfl, rfl⟩

/-! ### What is held behind -/

variable {fit : Nat → Nat → Slice → Prop} {holds : List Slice → β × Machine → Prop}

theorem Roomed.held {found : Except AllocError Nat} (hB : Ledger B fit holds)
    (h : Roomed B c s found t) (hh : holds s.1.1.held (s.1.2, s.2)) :
    holds t.1.1.held (t.1.2, t.2) := by
  cases h with
  | found _ _ => exact hh
  | refused hcall => exact hB.alloc_refused hh hcall
  | created hc hcall _ =>
    exact hB.perm (held_append hc _).symm (hB.report (hB.alloc hh hcall).2)

/-- A request keeps the ledger of what is held. -/
theorem alloc_held (hB : Ledger B fit holds)
    (h : GeneralPurpose.alloc B size align s = .ok (r, t))
    (hh : holds s.1.1.held (s.1.2, s.2)) : holds t.1.1.held (t.1.2, t.2) := by
  rcases alloc_ok h with ⟨_, _, rfl⟩ | ⟨_, _, ⟨c, _, hsmall⟩ | hlarge⟩
  · exact hh
  · rcases allocSmall_ok hsmall with
      ⟨_, _, _, hroom⟩ | ⟨_, u, bs, b, _, b', _, hroom, hc, hi, htake, _, rfl⟩
    · exact hroom.held hB hh
    · have hsame := held_set hc hi (Bucket.takeSlot_shape htake).storage
      exact hB.perm hsame.symm (hB.report (hroom.held hB hh))
  · obtain ⟨u, ⟨_, _, hcall, rfl⟩ | ⟨block, _, _, hcall, rfl⟩⟩ := allocLarge_ok hlarge
    · exact hB.alloc_refused hh hcall
    · exact hB.perm held_push.symm (hB.report (hB.alloc hh hcall).2)

theorem free_held (hB : Ledger B fit holds) (h : free B mem s = .ok ((), t))
    (hh : holds s.1.1.held (s.1.2, s.2)) : holds t.1.1.held (t.1.2, t.2) := by
  cases free_ok h with
  | null _ => exact hh
  | unknown _ _ => exact hB.report hh
  | slot _ _ hrel =>
    cases hrel with
    | kept hc hi hslot _ =>
      have hsame := held_set hc hi (Bucket.releaseSlot_shape hslot).storage
      exact hB.perm hsame.symm (hB.report hh)
    | emptied hc hi _ _ _ hfree =>
      exact hB.free (hB.report (hB.perm (held_eraseIdx hc hi) hh)) hfree
  | large _ _ hi hfree =>
    obtain ⟨rest, hall, _, hswap⟩ := held_large hi
    exact hB.perm hswap.symm (hB.free (hB.report (hB.perm hall hh)) hfree)

/-- A block that is not moved keeps the ledger of what is held, and the buckets are as before. -/
theorem adjust_held (hB : Ledger B fit holds) (hn : mem.isNull = false) (hs : size ≠ 0)
    (h : adjust B mem size align s = .ok (r, t)) (hh : holds s.1.1.held (s.1.2, s.2)) :
    (holds t.1.1.held (t.1.2, t.2) ∧ ∃ large, t.1.1 = { s.1.1 with large }) ∨
      relocate (GeneralPurpose.alloc B) (free B) mem size align s = .ok (r, t) := by
  cases adjust_ok h with
  | unknown => exact .inl ⟨hh, _, rfl⟩
  | inSlot _ _ => exact .inl ⟨hB.report hh, _, rfl⟩
  | moved _ hreloc => exact .inr hreloc
  | refused howner hi hcall =>
    obtain ⟨rest, hall, _⟩ := held_large hi
    have hnull := owner_large_isNull howner hi hn
    have hback := hB.resize_refused (hB.perm hall hh) hnull hs hcall
    exact .inl ⟨hB.perm hall.symm hback, _, rfl⟩
  | behind howner hi hcall =>
    obtain ⟨rest, hall, hset, _⟩ := held_large hi
    have hnull := owner_large_isNull howner hi hn
    obtain ⟨_, hback⟩ := hB.resize (hB.perm hall hh) hnull hs hcall
    exact .inl ⟨hB.perm (hset _).symm (hB.report hback), _, rfl⟩

/-- Destroying the table gives everything back. -/
theorem destroy_ok (hB : Ledger B fit holds) (h : destroy B s = .ok ((), t))
    (hh : holds s.1.1.held (s.1.2, s.2)) :
    t.1.1 = { s.1.1 with
        classes := Vector.replicate classCount [], occupied := .empty, large := [] } ∧
      holds [] (t.1.2, t.2) := by
  simp only [destroy, Act.bind_ok, Act.own_ok, Act.setOwn_ok, Act.below_ok] at h
  obtain ⟨_, _, ⟨rfl, rfl⟩, _, _, rfl, _, _, ⟨u, hsmall, rfl⟩, _, _, ⟨v, hlarge, rfl⟩, h⟩ := h
  have hrest := hB.freeAll hsmall hh
  rw [← List.append_nil s.1.1.large] at hrest
  have hend := hB.freeAll hlarge hrest
  by_cases hany : s.1.1.classes.toList.flatten.length + s.1.1.large.length > 0
  · rw [if_pos hany, Act.emit_ok] at h
    subst h
    exact ⟨rfl, hB.report hend⟩
  · rw [if_neg hany] at h
    obtain ⟨_, rfl⟩ := Act.pure_ok.1 h
    exact ⟨rfl, hend⟩

end AllocChain.GeneralPurpose
