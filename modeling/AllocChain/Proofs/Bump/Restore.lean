import AllocChain.Proofs.Bump.Edge
import AllocChain.Proofs.Bump.Separation
import AllocChain.Proofs.Bump.Unwind

/-!
Taking blocks back in the reverse order restores a fixed allocator and an arena. Both do to their
regions what `Unwinding` asks (`Fixed.unwinding`, `Arena.unwinding`), so a nested client that has
taken back all its blocks leaves the regions as they were, and what was acquired for it is given
back (`restored_of_nested`).
-/

namespace AllocChain

open Region Memory

variable {β : Type}

namespace Fixed

/-- The fixed allocator unwinds its region, and can always do so. -/
theorem unwinding : Unwinding allocator adjust (fun r => [r]) Kept fun _ => False where
  stacking := stacking
  busy _ hr hne := absurd (List.cons.inj hr).2.symm hne
  put := by
    rintro es s size align block t hk ha
    rcases allocBy_ok ha with ⟨_, hbad, _⟩ | ⟨hs, hpow, hpush⟩
    · cases hbad
    rcases push_ok hpush with ⟨_, hbad, _⟩ | ⟨_, region, memory, es, hans, halloc, rfl⟩
    · cases hbad
    cases hans
    obtain ⟨_, _, hlen, hlow, hend, rfl, _⟩ := alloc_eq_some halloc
    refine ⟨s.1, [], _, rfl, alloc_tops halloc, ?_, ?_, .inl rfl⟩
    · simp only [buffer, Slice.Has]
      omega
    · rintro ⟨region, m⟩ older hu
      obtain ⟨rfl, _⟩ := List.cons.inj hu
      obtain ⟨memory', hagain⟩ := alloc_memory halloc m.memory
      refine ⟨_, (congrFun (allocBy_valid hs hpow) _).trans (push_met hagain)⟩
  put_refused := by
    rintro es s size align e t hk ha
    rcases allocBy_ok ha with ⟨_, _, rfl⟩ | ⟨_, _, hpush⟩
    · rfl
    rcases push_ok hpush with ⟨_, _, rfl⟩ | ⟨_, _, _, _, hbad, _, _⟩
    · rfl
    · cases hbad
  pop := by
    rintro es s e r older t hk hr htop hf
    obtain ⟨rfl, rfl⟩ := List.cons.inj hr
    have haddr := Sound.addressable_of_tops hk htop
    have hfree := free_top haddr (stacking.bounded hk e List.mem_cons_self) htop
    rw [Sound.header hk e List.mem_cons_self] at hfree
    cases hf.symm.trans hfree
    exact (rewind_only _ _).symm
  pop_breaksOnly := by
    rintro es s e r older hk hr htop
    obtain ⟨rfl, rfl⟩ := List.cons.inj hr
    have haddr := Sound.addressable_of_tops hk htop
    exact .of_ok (free_top haddr (stacking.bounded hk e List.mem_cons_self) htop)
  regrow := by
    rintro es s e r older size align a t hk hr htop ha
    obtain ⟨rfl, rfl⟩ := List.cons.inj hr
    rcases adjust_ok ha with ⟨region, _, hres, _, rfl⟩ | hreloc
    · obtain ⟨rfl, htop'⟩ := resizeInPlace_tops (Sound.addressable_of_tops hk htop)
        (stacking.bounded hk e List.mem_cons_self) htop hres
      exact .inl ⟨_, rfl, htop'⟩
    · exact .inr hreloc

end Fixed

namespace Arena

variable {B : Allocator β} {fit : Nat → Nat → Slice → Prop}
  {holds : List Slice → β × Machine → Prop} {s : (Arena × β) × Machine} {size align : Nat}
  {block mem : Slice} {chunk : Chunk} {older chunks : List Chunk} {es : List Entry} {e : Entry}
  {t : (Arena × β) × Machine} {r : Answer}

/-- What a region had room for once it has room for again, as the newest. -/
theorem serves {r r' : Region} {m m' : Memory} (hs : 0 < size)
    (hpow : ∃ k, normalizeAlign align = 2 ^ k)
    (h : r.alloc m size (normalizeAlign align) = .ok (some (block, r', m'))) :
    Serves (allocator B) (fun l => l.1.chunks.map (·.region)) r ⟨size, align, block⟩ := by
  intro u older hu
  obtain ⟨chunk, older, hc, rfl, _⟩ := List.map_eq_cons_iff.1 hu
  obtain ⟨memory, hagain⟩ := alloc_memory h u.2.memory
  exact ⟨_, (congrFun (allocBy_valid hs hpow) u).trans (serve_met hc hagain)⟩

theorem resizeIn_owned (howns : chunk.region.owns mem = .ok true)
    (h : resizeIn mem size align (chunk :: older) = .ok (some chunks)) :
    ∃ region, chunk.region.resizeInPlace mem size align = .ok (some region) ∧
      chunks = { chunk with region } :: older := by
  simp only [resizeIn] at h
  obtain ⟨owned, howned, h⟩ := Fault.bind_ok.1 h
  obtain rfl : true = owned := Except.ok.inj (howns.symm.trans howned)
  simp only [if_true] at h
  obtain ⟨found, hres, h⟩ := Fault.bind_ok.1 h
  cases found with
  | none => simp [Fault.pure_ok] at h
  | some region =>
    simp only [Fault.pure_ok, Option.some.injEq] at h
    exact ⟨region, hres, h⟩

theorem Kept.topped (hB : Supply B fit holds) (h : Kept holds (e :: es) s)
    (hc : s.1.1.chunks = chunk :: older) (htop : chunk.region.Tops e.block) :
    ∃ top, chunk.region.Sound s.2.memory (e :: top) := by
  have hpiled := h.piled
  have hapart := h.apart hB
  rw [hc] at hpiled hapart
  obtain ⟨hbuf, _, top, rest, _, ⟨hsound, _⟩ | ⟨hsound, hold⟩⟩ := hpiled.locate
  · exact ⟨top, hsound⟩
  · have howns := owns_of_tops (hsound.addressable_of_tops htop)
      (h.piled.bounded List.mem_cons_self) htop
    exact absurd howns (hold.not_owned hapart hbuf)

/-- An arena unwinds its chunks; giving one back breaks off only as the allocator behind does. -/
theorem unwinding (hB : Supply B fit holds) (hC : Custody B holds) :
    Unwinding (allocator B) (adjust B) (fun l => l.1.chunks.map (·.region)) (Kept holds)
      (B.Breaks fun _ => True) where
  stacking := stacking hB hC
  busy := by
    rintro es s r older hk hr hne
    obtain ⟨chunk, older, hc, rfl, rfl⟩ := List.map_eq_cons_iff.1 hr
    have hpiled := hk.piled
    rw [hc] at hpiled
    cases hpiled with
    | cons _ hused _ _ _ => exact hused fun hnil => hne (hnil ▸ rfl)
  put := by
    rintro es s size align block t hk ha
    rcases allocBy_ok ha with ⟨_, hbad, _⟩ | ⟨hs, hpow, hserve⟩
    · cases hbad
    cases serve_ok hserve with
    | @current chunk older block region memory _ hc halloc =>
      obtain ⟨_, _, hlen, hlow, hend, rfl, _⟩ := alloc_eq_some halloc
      refine ⟨chunk.region, older.map (·.region), _, rfl, alloc_tops halloc, ?_,
        serves hs hpow halloc, .inl (by rw [hc]; rfl)⟩
      simp only [buffer, Slice.Has]
      omega
    | @fresh capacity mem u block region memory _ _ _ hcall halloc =>
      obtain ⟨_, _, hlen, hlow, hend, rfl, _⟩ := alloc_eq_some halloc
      have hhas : mem.Has block.addr := by
        simp only [Region.ofSlice] at hlow hend
        simp only [Slice.Has]
        omega
      exact ⟨.ofSlice mem, _, _, rfl, alloc_tops halloc, hhas, serves hs hpow halloc,
        .inr ⟨rfl, rfl, hk.new_apart hB hcall hhas⟩⟩
  put_refused := by
    rintro es s size align e t hk ha
    rcases allocBy_ok ha with ⟨_, _, rfl⟩ | ⟨_, _, hserve⟩
    · rfl
    cases serve_ok hserve <;> rfl
  pop := by
    rintro es s e r older t hk hr htop hf
    obtain ⟨chunk, older, hc, rfl, rfl⟩ := List.map_eq_cons_iff.1 hr
    obtain ⟨top, hsound⟩ := hk.topped hB hc htop
    have hfree := free_top (B := B) hc (hsound.addressable_of_tops htop)
      (hk.piled.bounded List.mem_cons_self) htop rfl
    rw [hsound.header e List.mem_cons_self] at hfree
    replace hf := hfree.symm.trans hf
    rw [hr]
    split at hf
    · rename_i hlast
      obtain ⟨_, u, _, rfl⟩ := release_ok hf
      exact (if_pos ⟨hlast.1, fun hnil => hlast.2 (List.map_eq_nil_iff.1 hnil)⟩).symm
    · rename_i hstays
      cases hf
      exact (if_neg fun hlast => hstays ⟨hlast.1, fun hnil => hlast.2 (hnil ▸ rfl)⟩).symm
  pop_breaksOnly := by
    rintro es s e r older hk hr htop brk hbrk
    obtain ⟨chunk, older, hc, rfl, rfl⟩ := List.map_eq_cons_iff.1 hr
    obtain ⟨top, hsound⟩ := hk.topped hB hc htop
    have hfree := free_top (B := B) hc (hsound.addressable_of_tops htop)
      (hk.piled.bounded List.mem_cons_self) htop rfl
    replace hbrk := hfree.symm.trans hbrk
    split at hbrk
    · refine Act.BreaksOnly.emit_bind (.below ?_) brk hbrk
      exact fun brk hcall => ⟨_, trivial, .inr (.inr ⟨_, hcall⟩)⟩
    · cases hbrk
  regrow := by
    rintro es s e r older size align a t hk hr htop ha
    obtain ⟨chunk, older, hc, rfl, rfl⟩ := List.map_eq_cons_iff.1 hr
    obtain ⟨top, hsound⟩ := hk.topped hB hc htop
    have haddr := hsound.addressable_of_tops htop
    have hbound := hk.piled.bounded (e := e) List.mem_cons_self
    rcases adjust_ok ha with ⟨chunks, events, hres, _, rfl⟩ | hreloc
    · rw [hc] at hres
      obtain ⟨region, hplace, rfl⟩ := resizeIn_owned (owns_of_tops haddr hbound htop) hres
      obtain ⟨rfl, htop'⟩ := resizeInPlace_tops haddr hbound htop hplace
      exact .inl ⟨_, rfl, htop'⟩
    · exact .inr hreloc

/-! ### What was acquired -/

theorem alloc_acquired (h : Arena.alloc B size align s = .ok (r, t)) :
    t.1.1.chunks.map acquired = s.1.1.chunks.map acquired ∨
      ∃ x, t.1.1.chunks.map acquired = x :: s.1.1.chunks.map acquired := by
  rcases allocBy_ok h with ⟨_, _, rfl⟩ | ⟨_, _, hserve⟩
  · exact .inl rfl
  cases serve_ok hserve with
  | current hc _ =>
    rw [hc]
    exact .inl rfl
  | tooLarge _ _ => exact .inl rfl
  | refused _ _ _ => exact .inl rfl
  | unusable _ _ _ _ _ => exact .inl rfl
  | fresh _ _ _ _ => exact .inr ⟨_, rfl⟩

theorem free_acquired (h : Arena.free B mem s = .ok ((), t)) :
    t.1.1.chunks.map acquired = s.1.1.chunks.map acquired ∨
      ∃ x, s.1.1.chunks.map acquired = x :: t.1.1.chunks.map acquired := by
  cases free_ok h with
  | ignored => exact .inl rfl
  | rewound hc _ _ =>
    rw [hc]
    exact .inl rfl
  | emptied hc _ _ _ =>
    rw [hc]
    exact .inr ⟨_, rfl⟩

/-- One call adds a chunk in front, or takes the one that is there, or does neither. -/
def OneApart {α : Type} (l l' : List α) : Prop :=
  l' = l ∨ (∃ x, l' = x :: l) ∨ ∃ x, l = x :: l'

theorem OneApart.suffix {α : Type} {base l l' : List α} (h : OneApart l l') (hs : base <:+ l)
    (hlen : base.length ≤ l'.length) : base <:+ l' := by
  rcases h with rfl | ⟨x, rfl⟩ | ⟨x, rfl⟩
  · exact hs
  · exact hs.trans (List.suffix_cons x l)
  · rcases List.suffix_cons_iff.1 hs with rfl | hs
    · exact absurd hlen (by simp)
    · exact hs

theorem resize_acquired (h : resizeBy (alloc B) (free B) (adjust B) mem size align s = .ok (r, t)) :
    OneApart (s.1.1.chunks.map acquired) (t.1.1.chunks.map acquired) := by
  by_cases hn : mem.isNull = true
  · rw [resizeBy_null hn] at h
    exact (alloc_acquired h).imp_right .inl
  rw [Bool.not_eq_true] at hn
  by_cases hs : size = 0
  · subst hs
    rw [resizeBy_zero hn] at h
    obtain ⟨_, _, hf, hret⟩ := Act.bind_ok.1 h
    rw [(Act.pure_ok.1 hret).2]
    exact (free_acquired hf).imp_right .inr
  rcases resizeBy_ok hn hs h with ⟨_, _, rfl⟩ | ⟨_, hadj⟩
  · exact .inl rfl
  rcases adjust_ok hadj with ⟨chunks, _, hres, _, rfl⟩ | hreloc
  · exact .inl (resizeIn_acquired hres)
  rcases relocate_ok hreloc with ⟨_, _, ha⟩ | ⟨_, u, _, ha, hf⟩
  · exact (alloc_acquired ha).imp_right .inl
  -- the new block may have added a chunk, and the old one may have taken one
  have hfreed := free_acquired hf
  rcases alloc_acquired ha with heq | ⟨x, hcons⟩
  · rw [heq] at hfreed
    exact hfreed.imp_right .inr
  · rw [hcons] at hfreed
    rcases hfreed with heq | ⟨y, heq⟩
    · exact .inr (.inl ⟨x, heq⟩)
    · exact .inl (List.cons.inj heq).2.symm

/-- What was acquired when a nested client started is still there, below all that came later. -/
theorem acquired_suffix {old : List Entry} {start : (Arena × β) × Machine} {first : Option Grant}
    {stack : List Slice} (hB : Supply B fit holds) (hC : Custody B holds)
    (hk : Kept holds old start)
    (hn : Nested (allocator B) (old.map (·.block)) start first stack s) :
    start.1.1.chunks.map acquired <:+ s.1.1.chunks.map acquired := by
  have hlen : ∀ {first stack s}, Nested (allocator B) (old.map (·.block)) start first stack s →
      (start.1.1.chunks.map acquired).length ≤ (s.1.1.chunks.map acquired).length := by
    intro first stack s hn
    have hle := (unwinding hB hC).length_le hk hn
    simpa only [List.length_map] using hle
  induction hn with
  | start => exact List.suffix_rfl
  | alloc hn ha ih =>
    exact OneApart.suffix ((alloc_acquired ha).imp_right .inl) ih (hlen (.alloc hn ha))
  | alloc_refused hn ha ih =>
    exact OneApart.suffix ((alloc_acquired ha).imp_right .inl) ih (hlen (.alloc_refused hn ha))
  | resize hn ha haddr ih => exact (resize_acquired ha).suffix ih (hlen (.resize hn ha haddr))
  | resize_refused hn ha ih => exact (resize_acquired ha).suffix ih (hlen (.resize_refused hn ha))
  | free hn hf ih =>
    exact OneApart.suffix ((free_acquired hf).imp_right .inr) ih (hlen (.free hn hf))
  | write _ _ ih => exact ih

theorem chunks_ext (hacq : chunks.map acquired = older.map acquired)
    (hreg : chunks.map (·.region) = older.map (·.region)) : chunks = older := by
  induction chunks generalizing older with
  | nil => exact (List.map_eq_nil_iff.1 hacq.symm).symm
  | cons c cs ih =>
    obtain ⟨d, ds, rfl, hc, hcs⟩ := List.map_eq_cons_iff.1 hacq.symm
    obtain ⟨hr, hrs⟩ := List.cons.inj hreg
    obtain ⟨hmem, halign⟩ := Prod.mk.inj hc
    rw [ih hcs.symm hrs]
    obtain ⟨mem, align, region⟩ := c
    obtain ⟨mem', align', region'⟩ := d
    simp_all

/-- What is left of an arena when a nested client, which began in state `s`, has taken back all its
blocks: the chunks that there were, or one that is unused where there was none. What is outstanding
behind are these chunks, and the first request that was met gets the same block again if that lies
in the newest of them. -/
structure Restored (B : Allocator β) (first : Option Grant)
    (s s' : (Arena × List Call × β) × Machine) : Prop where
  same : s.1.1.chunks ≠ [] ∨ first = none → s'.1.1.chunks = s.1.1.chunks
  fresh : s.1.1.chunks = [] → first ≠ none →
    ∃ chunk, s'.1.1.chunks = [chunk] ∧ chunk.region.used = 0
  settled : Tracked (s'.1.1.chunks.map (·.mem)) (s'.1.2, s'.2)
  again : ∀ grant ∈ first, ∀ chunk older, s'.1.1.chunks = chunk :: older →
    chunk.mem.Has grant.block.addr →
    ∃ t, alloc B.traced grant.size grant.align s' = .ok (.ok grant.block, t)

/-- A nested client of an arena that has taken back all its blocks has restored it. -/
theorem restored {s s' : (Arena × List Call × β) × Machine} {old : List Entry}
    {first : Option Grant} (hB : Supply B fit holds) (hC : Custody B holds)
    (hk : Kept (Traced holds) old s)
    (hn : Nested (allocator B.traced) (old.map (·.block)) s first [] s') :
    Restored B first s s' := by
  obtain ⟨hend, hsame, hfresh, hagain⟩ := (unwinding hB.traced hC.traced).restored hk hn
  refine ⟨?_, ?_, hend.backed.2, ?_⟩
  · intro hcase
    have hregions := hsame (hcase.imp_left fun hne hnil => hne (List.map_eq_nil_iff.1 hnil))
    have hlen := congrArg List.length hregions
    have hsuffix := acquired_suffix hB.traced hC.traced hk hn
    exact chunks_ext (hsuffix.eq_of_length (by simpa using hlen.symm)).symm hregions
  · intro hnil hne
    obtain ⟨r, hr, hzero⟩ := hfresh (List.map_eq_nil_iff.2 hnil) hne
    obtain ⟨chunk, hc, rfl⟩ := List.map_eq_singleton_iff.1 hr
    exact ⟨chunk, hc, hzero⟩
  · intro grant hgrant chunk older hc hhas
    have hmem : chunk ∈ s'.1.1.chunks := hc ▸ List.mem_cons_self
    rcases hagain grant hgrant with hmet | ⟨hnone, _⟩
    · exact hmet
    · rw [← (hend.piled.split (hend.apart hB.traced) hmem).1] at hhas
      exact absurd hhas (hnone chunk.region (List.mem_map_of_mem hmem))

end Arena

/-- A client that holds some blocks of a fixed allocator or of an arena goes on to ask for more, and
takes back the newest first. Each can be taken back, unless the allocator behind breaks off; once
all are gone everything is as before, but that an arena without chunks keeps one that is unused. -/
theorem restored_of_nested :
    (∀ {base capacity : Nat} {m : Machine} {live : List (Lease Region)} {s s' : Region × Machine}
      {first : Option Grant} {stack : List Slice},
      base + capacity < wordLimit →
      Run Fixed.allocator [Fixed.reset] Disciplined (⟨base, capacity, 0⟩, m) live s →
      Nested Fixed.allocator (live.map (·.block)) s first stack s' →
      (∀ top ∈ stack.head?, ∃ t, Fixed.free top s' = .ok ((), t)) ∧
      (stack = [] → s'.1 = s.1 ∧ ∀ grant ∈ first,
        ∃ t, Fixed.alloc grant.size grant.align s' = .ok (.ok grant.block, t))) ∧
    ∀ {β : Type} {B : Allocator β} {holds : List Slice → β × Machine → Prop} {chunkSize : Nat}
      {b : β} {m : Machine} {live : List (Lease (Arena × List Call × β))}
      {s s' : (Arena × List Call × β) × Machine} {first : Option Grant} {stack : List Slice},
      Supply B Slice.Any holds → Custody B holds → holds [] (b, m) →
      Run (Arena.allocator B.traced) [Arena.reset B.traced, Arena.destroy B.traced] Disciplined
        ((Arena.new chunkSize, [], b), m) live s →
      Nested (Arena.allocator B.traced) (live.map (·.block)) s first stack s' →
      (∀ top ∈ stack.head?,
        (Arena.free B.traced top).BreaksOnly (B.traced.Breaks fun _ => True) s') ∧
      (stack = [] → Arena.Restored B first s s') := by
  constructor
  · intro base capacity m live s s' first stack hbound hrun hn
    have hk := (Fixed.tenants_of_run hbound hrun).kept
    rw [← Lease.map_entry_block fun r => [r]] at hn
    refine ⟨?_, ?_⟩
    · intro top htop
      obtain ⟨rest, rfl⟩ := List.head?_eq_some_iff.1 htop
      obtain ⟨_, t, hf⟩ := (Fixed.unwinding.free_breaksOnly hk hn).returns
      exact ⟨t, hf⟩
    · rintro rfl
      obtain ⟨hend, hsame, _, hagain⟩ := Fixed.unwinding.restored hk hn
      have hregion : s'.1 = s.1 := (List.cons.inj (hsame (.inl (List.cons_ne_nil _ _)))).1
      refine ⟨hregion, fun grant hgrant => ?_⟩
      rcases hagain grant hgrant with hmet | ⟨_, g, hmore⟩
      · exact hmet
      · exact absurd hmore (Nat.lt_irrefl 1)
  · intro β B holds chunkSize b m live s s' first stack hB hC hback hrun hn
    have hk := (Arena.tenants_of_run hB.traced hC.traced (.nil hback) hrun).kept
    rw [← Lease.map_entry_block fun l => l.1.chunks.map (·.region)] at hn
    refine ⟨?_, ?_⟩
    · intro top htop
      obtain ⟨rest, rfl⟩ := List.head?_eq_some_iff.1 htop
      exact (Arena.unwinding hB.traced hC.traced).free_breaksOnly hk hn
    · rintro rfl
      exact Arena.restored hB hC hk hn

/-- A client of a buffer that holds one block, asks for two more, is refused a third, and lets the
first of them grow; and one of an arena without chunks that needs two of them. -/
theorem restored_of_two_clients :
    (∃ live s s', Run Fixed.allocator [Fixed.reset] Disciplined
        (⟨64, 256, 0⟩, ⟨.zero, [], []⟩) live s ∧
      Nested Fixed.allocator (live.map (·.block)) s (some ⟨24, 16, ⟨96, 24⟩⟩) [] s' ∧
      s'.1 = s.1 ∧ ∃ t, Fixed.alloc 24 16 s' = .ok (.ok ⟨96, 24⟩, t)) ∧
    ∃ s', Nested (Arena.allocator Fixed.allocator.traced) []
        ((Arena.new 64, [], ⟨64, 1024, 0⟩), ⟨.zero, [], []⟩) (some ⟨40, 8, ⟨80, 40⟩⟩) [] s' ∧
      Arena.Restored Fixed.allocator (some ⟨40, 8, ⟨80, 40⟩⟩)
        ((Arena.new 64, [], ⟨64, 1024, 0⟩), ⟨.zero, [], []⟩) s' := by
  have hfixed : ((Fixed.allocator.play Disciplined [.alloc 10 8] []
      (⟨64, 256, 0⟩, ⟨.zero, [], []⟩)).bind fun r =>
        (Fixed.allocator.nest (r.1.map (·.block))
          [.alloc 24 16, .write 100 7, .resize ⟨96, 24⟩ 40 8, .alloc 300 8, .write 72 1,
            .alloc 8 8, .free ⟨144, 8⟩, .free ⟨96, 40⟩] none [] r.2).map fun n =>
          (n.1, n.2.1)) = some (some ⟨24, 16, ⟨96, 24⟩⟩, []) := by
    decide +kernel
  have harena : ((Arena.allocator Fixed.allocator.traced).nest []
      [.alloc 40 8, .alloc 40 8, .resize ⟨152, 40⟩ 48 8, .write 152 8, .free ⟨152, 48⟩,
        .free ⟨80, 40⟩] none []
      ((Arena.new 64, [], ⟨64, 1024, 0⟩), ⟨.zero, [], []⟩)).map (fun n => (n.1, n.2.1)) =
        some (some ⟨40, 8, ⟨80, 40⟩⟩, []) := by
    decide +kernel
  obtain ⟨⟨live, s⟩, hplay, hnest⟩ := Option.bind_eq_some_iff.1 hfixed
  obtain ⟨⟨first, stack, s'⟩, hn, hends⟩ := Option.map_eq_some_iff.1 hnest
  obtain ⟨⟨first', stack', s''⟩, hn', hends'⟩ := Option.map_eq_some_iff.1 harena
  cases hends
  cases hends'
  have hrun : Run Fixed.allocator [Fixed.reset] Disciplined _ live s := Run.start.play hplay
  have hnested := Nested.start.play hn
  have hnested' := Nested.start.play hn'
  have hsupply : Supply Fixed.allocator Slice.Any (Stacking.Holds Fixed.Kept) :=
    Fixed.stacking.contract.supply.mono fun _ _ _ _ => trivial
  obtain ⟨hregion, hagain⟩ := (restored_of_nested.1 (by decide) hrun hnested).2 rfl
  have harena' := (restored_of_nested.2 hsupply Fixed.stacking.contract.custody
    (Fixed.holds_nil (by decide)) .start hnested').2 rfl
  exact ⟨⟨live, s, s', hrun, hnested, hregion, hagain _ rfl⟩, s'', hnested', harena'⟩

end AllocChain
