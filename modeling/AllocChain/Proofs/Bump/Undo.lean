import AllocChain.Proofs.Bump.Opening
import AllocChain.Proofs.Bump.Restore
import AllocChain.Proofs.Bump.Seated
import AllocChain.Proofs.Undoing

/-!
Requests of bump regions that are undone. The header of a block that was just made says what was
used before it, and nobody else writes there; so giving the block back rewinds the region to where
it was. If the request opened a chunk, the chunk is then unused and goes back as it came, provided
that the arena had another one.
-/

namespace AllocChain

open Region Memory

variable {β γ : Type}

/-- A block that was just made has its entry, whatever was written into it since. -/
theorem Stacking.written {A : Allocator γ} {adjust : Slice → Nat → Nat → Act γ Answer}
    {regions : γ → List Region} {kept : List Entry → γ × Machine → Prop} {es : List Entry}
    {s t : γ × Machine} {size align : Nat} {block : Slice} {m : Machine}
    (h : Stacking A adjust regions kept) (hk : kept es s)
    (ha : A.alloc size align s = .ok (.ok block, t))
    (hw : WrittenIn [block] t.2.memory m.memory) :
    kept (⟨block, usedAt (regions s.1) block.addr⟩ :: es) (t.1, m) :=
  h.write (h.alloc hk ha).2.2.1 (hw.mem List.mem_cons_self)

/-- A block that a region has handed out starts in its buffer. -/
theorem Region.alloc_has_addr {r r' : Region} {m m' : Memory} {size align : Nat} {block : Slice}
    (hs : 0 < size) (h : r.alloc m size align = .ok (some (block, r', m'))) :
    r.buffer.Has block.addr := by
  obtain ⟨_, _, hlen, _⟩ := alloc_eq_some h
  have hpos : 0 < block.len := by
    rw [hlen]
    exact hs
  exact (alloc_writes h).2.has (Slice.has_addr hpos)

/-- A fixed allocator undoes every request. -/
theorem Fixed.undoes :
    Undoes Fixed.allocator (Stacking.Holds Fixed.Kept) (fun _ => True) (fun _ r r' => r' = r)
      fun _ => [] where
  refl := rfl
  trans h h' := h'.trans h
  stays _ _ := trivial
  undo := by
    rintro out s size align block t m ⟨es, _, hk⟩ _ ha hw
    have hkept := Fixed.stacking.written hk ha hw
    obtain ⟨hs, hpush, _⟩ := allocBy_served ha
    rcases Fixed.push_ok hpush with ⟨_, hbad, _⟩ | ⟨_, region, memory, _, heq, halloc, rfl⟩
    · cases hbad
    cases heq
    have htop := alloc_tops halloc
    have hfree := Fixed.free_top (Sound.addressable_of_tops hkept htop)
      (Fixed.stacking.bounded hkept _ List.mem_cons_self) htop
    rw [Sound.header hkept _ List.mem_cons_self] at hfree
    refine ⟨_, hfree, ?_⟩
    obtain ⟨_, _, _, _, _, rfl, _⟩ := alloc_eq_some halloc
    simp only [usedAt_cons (alloc_has_addr hs halloc)]
  again := by
    rintro n ⟨r, m⟩ ⟨r', m'⟩ size align block t ha rfl _
    obtain ⟨_, hpush, hserved⟩ := allocBy_served ha
    rcases Fixed.push_ok hpush with ⟨_, hbad, _⟩ | ⟨_, region, memory, _, heq, halloc, _⟩
    · cases hbad
    cases heq
    obtain ⟨memory', hagain⟩ := alloc_memory halloc m'.memory
    exact ⟨_, (hserved _).trans (Fixed.push_met hagain)⟩

/-- A fixed allocator in a block of another allocator undoes a request without calling that one. -/
theorem Fixed.seated_undo {holds : List Slice → β × Machine → Prop} {out : List Slice}
    {s t : (Region × β) × Machine} {size align : Nat} {block : Slice} {m : Machine}
    (hs : Fixed.Seated holds out s) (ha : Act.above (Fixed.alloc size align) s = .ok (.ok block, t))
    (hw : WrittenIn [block] t.2.memory m.memory) :
    ∃ u, Act.above (Fixed.free block) (t.1, m) = .ok ((), u) ∧ u.1 = s.1 := by
  obtain ⟨v, hcall, rfl⟩ := Act.above_ok.1 ha
  obtain ⟨w, hfree, hback⟩ := Fixed.undoes.undo hs.stacked trivial hcall hw
  exact ⟨_, Act.above_ok.2 ⟨w, hfree, rfl⟩, Prod.ext hback rfl⟩

theorem Fixed.seated_again {s s' t : (Region × β) × Machine} {size align : Nat} {block : Slice}
    (ha : Act.above (Fixed.alloc size align) s = .ok (.ok block, t)) (hr : s'.1.1 = s.1.1) :
    ∃ t', Act.above (Fixed.alloc size align) s' = .ok (.ok block, t') := by
  obtain ⟨v, hcall, rfl⟩ := Act.above_ok.1 ha
  obtain ⟨w, hagain⟩ : ∃ w, Fixed.alloc size align (s'.1.1, s'.2) = .ok (.ok block, w) :=
    Fixed.undoes.again (n := 0) hcall hr (by simp)
  exact ⟨_, Act.above_ok.2 ⟨w, hagain, rfl⟩⟩

namespace Arena

variable {B : Allocator β} {holds : List Slice → β × Machine → Prop} {stocked : β → Prop}
  {restored : Nat → β → β → Prop} {counters : β → List Counters} {out : List Slice}
  {s s' t : (Arena × β) × Machine} {size align n capacity : Nat} {block mem : Slice}

/-- Giving back a block that was just made rewinds its chunk to what was used there before; a chunk
that is then unused goes, unless it is the only one. -/
theorem Kept.free_written (hB : Service B holds) {es : List Entry} (hk : Kept holds es s)
    (ha : Arena.alloc B size align s = .ok (.ok block, t)) {m : Machine}
    (hw : WrittenIn [block] t.2.memory m.memory) {chunk : Chunk} {older : List Chunk}
    (hc : t.1.1.chunks = chunk :: older) (htop : chunk.region.Tops block) {used : Nat}
    (hused : usedAt (s.1.1.chunks.map (·.region)) block.addr = used) :
    Arena.free B block (t.1, m) =
      if used = 0 ∧ older ≠ [] then
        release B { chunk with region := { chunk.region with used } }
          (({ t.1.1 with chunks := older }, t.1.2), m.report [.arenaFree block.addr used])
      else .ok ((), (({ t.1.1 with
        chunks := { chunk with region := { chunk.region with used } } :: older }, t.1.2),
        m.report [.arenaFree block.addr used])) := by
  have hkept : Kept holds (⟨block, usedAt (s.1.1.chunks.map (·.region)) block.addr⟩ :: es)
      (t.1, m) := (stacking hB.supply hB.custody).written hk ha hw
  obtain ⟨top, hsound⟩ := hkept.topped hB.supply hc htop
  have hheader : m.memory.readWord (block.addr - headerSize) = used :=
    (hsound.header _ List.mem_cons_self).trans hused
  have hchunks : ((t.1, m) : (Arena × β) × Machine).1.1.chunks = chunk :: older := hc
  have hbound : block.Bounded := hkept.piled.bounded List.mem_cons_self
  have hregion : ({ chunk.region with used } : Region) =
      { chunk.region with used := m.memory.readWord (block.addr - headerSize) } := by
    rw [hheader]
  exact free_top hchunks (hsound.addressable_of_tops htop) hbound htop hregion

/-- A block that is given back right away takes its chunk back with it, if it was given a new one;
for that the arena must have had another. -/
theorem undo (hB : Service B holds) (h : Undoes B holds stocked restored counters)
    (hs : Stacking.Holds (Kept holds) out s) (hne : s.1.1.chunks ≠ []) (hstocked : stocked s.1.2)
    (ha : Arena.alloc B size align s = .ok (.ok block, t)) {m : Machine}
    (hw : WrittenIn [block] t.2.memory m.memory) :
    ∃ u, Arena.free B block (t.1, m) = .ok ((), u) ∧ u.1.1 = s.1.1 ∧
      restored 1 s.1.2 u.1.2 := by
  obtain ⟨es, _, hk⟩ := hs
  obtain ⟨hpos, hserve, _⟩ := allocBy_served ha
  cases serve_ok hserve with
  | @current chunk older _ region memory _ hc halloc =>
    have hused : usedAt (s.1.1.chunks.map (·.region)) block.addr = chunk.region.used := by
      rw [hc]
      exact usedAt_cons (alloc_has_addr hpos halloc)
    have hfree := hk.free_written hB ha hw rfl (alloc_tops halloc) hused
    -- only the oldest chunk may have been unused before the request
    have hstays : ¬ (chunk.region.used = 0 ∧ older ≠ []) := by
      rintro ⟨hzero, hold⟩
      have hpiled := hk.piled
      rw [hc] at hpiled
      cases hpiled with
      | cons _ hbusy _ _ _ => exact absurd hzero (Nat.pos_iff_ne_zero.1 (hbusy hold))
    rw [if_neg hstays] at hfree
    refine ⟨_, hfree, ?_, h.refl⟩
    obtain ⟨_, _, _, _, _, rfl, _⟩ := alloc_eq_some halloc
    simp only [← hc]
  | @fresh capacity mem u _ region memory _ _ _ hcall halloc =>
    have hhas : mem.Has block.addr := alloc_has_addr hpos halloc
    have hused := usedAt_eq_zero (hk.new_apart hB.supply hcall hhas)
    have hfree := hk.free_written hB ha hw rfl (alloc_tops halloc) hused
    rw [if_pos ⟨rfl, hne⟩] at hfree
    obtain ⟨hplaced, hin⟩ := alloc_writes halloc
    have hwritten : WrittenIn [mem] u.2.memory m.memory := by
      refine WrittenIn.trans hplaced (hw.inside fun b hb => ⟨mem, List.mem_singleton_self _, ?_⟩)
      rw [List.mem_singleton.1 hb]
      exact hin
    obtain ⟨v, hback, hrest⟩ := h.undo (m := (m.report [.arenaFree block.addr 0]).report
      [.chunkReleased mem.len mem.addr]) hk.backed hstocked hcall hwritten
    refine ⟨((s.1.1, v.1), v.2), hfree.trans ?_, rfl, hrest⟩
    exact Act.bind_ok.2 ⟨(), _, Act.emit_ok.2 rfl, Act.below_ok.2 ⟨v, hback, rfl⟩⟩

/-- An arena with the same chunks answers a request again. -/
theorem again (h : Undoes B holds stocked restored counters)
    (ha : Arena.alloc B size align s = .ok (.ok block, t)) (hc : s'.1.1 = s.1.1)
    (hr : restored n s.1.2 s'.1.2)
    (hroom : ∀ c ∈ counters s.1.2, c.allocs + n + 1 < wordLimit) :
    ∃ t', Arena.alloc B size align s' = .ok (.ok block, t') := by
  obtain ⟨_, hserve, hserved⟩ := allocBy_served ha
  cases serve_ok hserve with
  | current hchunks halloc =>
    obtain ⟨memory', hagain⟩ := alloc_memory halloc s'.2.memory
    rw [← hc] at hchunks
    exact ⟨_, (hserved s').trans (serve_met hchunks hagain)⟩
  | @fresh capacity mem u _ region memory _ hfull hcap hcall halloc =>
    obtain ⟨u', hcall'⟩ := h.again_below hcall hr hroom
    obtain ⟨memory', hagain⟩ := alloc_memory halloc u'.2.memory
    rw [← hc] at hfull hcap
    obtain ⟨t', hmet, _⟩ := serve_answered hfull hcap hcall' hagain
    exact ⟨t', (hserved s').trans hmet⟩

end Arena
end AllocChain
