import AllocChain.Bump.Arena
import AllocChain.Proofs.Bump.Stack

/-!
A stack of chunks and the blocks that lie in it. `Piled` is the invariant: every chunk is a sound
region over its memory, each block lies in one chunk, and of the chunks only the oldest may be
unused. That the memories of the chunks lie apart is left to whoever hands them out.
-/

namespace AllocChain.Arena

open Region Memory

/-- The entries of the chunks: some lie in the newest, and the others in the older ones. -/
inductive Piled (m : Memory) : List Chunk → List Entry → Prop
  | nil : Piled m [] []
  | cons {chunk older top rest es} : chunk.region.buffer = chunk.mem →
      (older ≠ [] → 0 < chunk.region.used) → chunk.region.Sound m top → Piled m older rest →
      (top ++ rest).Perm es → Piled m (chunk :: older) es

variable {m m' : Memory} {chunks older : List Chunk} {chunk : Chunk} {es es' : List Entry}
  {e : Entry}

/-- No two chunks share memory. -/
def Apart (chunks : List Chunk) : Prop := (chunks.map (·.mem)).Pairwise Slice.Disjoint

theorem Apart.tail (h : Apart (chunk :: older)) : Apart older := (List.pairwise_cons.1 h).2

theorem Apart.head (h : Apart (chunk :: older)) {c : Chunk} (hc : c ∈ older) :
    chunk.mem.Disjoint c.mem :=
  (List.pairwise_cons.1 h).1 c.mem (List.mem_map_of_mem hc)

theorem Piled.perm (h : Piled m chunks es) (hp : es.Perm es') : Piled m chunks es' := by
  cases h with
  | nil =>
    rw [List.perm_nil.1 hp.symm]
    exact .nil
  | cons hbuf hused hsound hpiled hsplit =>
    exact .cons hbuf hused hsound hpiled (hsplit.trans hp)

theorem Piled.home (h : Piled m chunks es) (he : e ∈ es) :
    ∃ c ∈ chunks, ∃ top, e ∈ top ∧ c.region.buffer = c.mem ∧ c.region.Sound m top := by
  induction h with
  | nil => simp at he
  | cons hbuf _ hsound _ hsplit ih =>
    rcases List.mem_append.1 (hsplit.mem_iff.2 he) with htop | hrest
    · exact ⟨_, List.mem_cons_self, _, htop, hbuf, hsound⟩
    · obtain ⟨c, hc, rest⟩ := ih hrest
      exact ⟨c, List.mem_cons_of_mem _ hc, rest⟩

theorem Piled.inside (h : Piled m chunks es) (he : e ∈ es) :
    ∃ c ∈ chunks, e.extent.Inside c.mem := by
  obtain ⟨c, hc, top, htop, hbuf, hsound⟩ := h.home he
  refine ⟨c, hc, ?_⟩
  rw [← hbuf]
  exact hsound.extent_inside htop

theorem Piled.nonempty (h : Piled m chunks es) (he : e ∈ es) : 0 < e.block.len := by
  obtain ⟨_, _, _, htop, _, hsound⟩ := h.home he
  exact hsound.nonempty e htop

theorem Piled.lower (h : Piled m chunks es) (he : e ∈ es) : headerSize ≤ e.block.addr := by
  obtain ⟨_, _, _, htop, _, hsound⟩ := h.home he
  have := hsound.lower e htop
  omega

theorem Piled.bounded (h : Piled m chunks es) (he : e ∈ es) : e.block.Bounded := by
  obtain ⟨_, _, _, htop, _, hsound⟩ := h.home he
  have h1 := hsound.upper e htop
  have h2 := hsound.used_le
  have h3 := hsound.bounded
  simp only [Slice.Bounded]
  omega

/-- The start of a block lies in its chunk, so it tells the chunks apart. -/
theorem has_addr_of_inside (hpos : 0 < e.block.len) (hlow : headerSize ≤ e.block.addr) {s : Slice}
    (hin : e.extent.Inside s) : s.Has e.block.addr :=
  hin.has ((Entry.block_inside hlow).has (Slice.has_addr hpos))

/-- The entries of a chunk are all those that start in its memory. -/
theorem Piled.split (h : Piled m chunks es) (ha : Apart chunks) {c : Chunk} (hc : c ∈ chunks) :
    c.region.buffer = c.mem ∧ ∃ top, c.region.Sound m top ∧
      ∀ e ∈ es, c.mem.Has e.block.addr → e ∈ top := by
  induction h with
  | nil => simp at hc
  | @cons chunk older top rest es hbuf _ hsound hpiled hsplit ih =>
    rcases List.mem_cons.1 hc with rfl | hold
    · refine ⟨hbuf, top, hsound, ?_⟩
      intro e he hhas
      rcases List.mem_append.1 (hsplit.mem_iff.2 he) with htop | hrest
      · exact htop
      · obtain ⟨c', hc', hin⟩ := hpiled.inside hrest
        have hhas' := has_addr_of_inside (hpiled.nonempty hrest) (hpiled.lower hrest) hin
        exact absurd hhas' (ha.head hc' _ hhas)
    · obtain ⟨hbuf', top', hsound', hall⟩ := ih ha.tail hold
      refine ⟨hbuf', top', hsound', ?_⟩
      intro e he hhas
      rcases List.mem_append.1 (hsplit.mem_iff.2 he) with htop | hrest
      · have hlow := hsound.lower e htop
        have hin := hsound.extent_inside htop
        rw [hbuf] at hin
        have hhas' := has_addr_of_inside (hsound.nonempty e htop) (by omega) hin
        exact absurd hhas (ha.head hold _ hhas')
      · exact hall e hrest hhas

/-- Blocks and headers of all chunks lie apart. -/
theorem Piled.apart (h : Piled m chunks es) (ha : Apart chunks) :
    es.Pairwise fun e e' => e.extent.Disjoint e'.extent := by
  induction h with
  | nil => exact .nil
  | cons hbuf _ hsound hpiled hsplit ih =>
    refine (hsplit.pairwise_iff fun hd => hd.symm).1 ?_
    refine List.pairwise_append.2 ⟨hsound.apart, ih ha.tail, ?_⟩
    intro e he e' he'
    obtain ⟨c, hc, hin⟩ := hpiled.inside he'
    have hin' := hsound.extent_inside he
    rw [hbuf] at hin'
    exact (ha.head hc).mono hin' hin

/-- The invariant looks at the headers only. -/
theorem Piled.memory (h : Piled m chunks es) (hm : AgreesOn (es.map Entry.header) m m') :
    Piled m' chunks es := by
  induction h with
  | nil => exact .nil
  | @cons chunk older top rest es hbuf hused hsound _ hsplit ih =>
    have hsub : (top ++ rest).map Entry.header ⊆ es.map Entry.header :=
      (hsplit.map Entry.header).subset
    rw [List.map_append] at hsub
    have htop := hm.subset fun s hs => hsub (List.mem_append_left _ hs)
    have hrest := hm.subset fun s hs => hsub (List.mem_append_right _ hs)
    exact .cons hbuf hused (hsound.memory htop) (ih hrest) hsplit

/-- Only the oldest chunk may be unused. -/
theorem Piled.busy (h : Piled m chunks es) {c : Chunk} (hc : c ∈ chunks.dropLast) :
    0 < c.region.used := by
  induction h with
  | nil => simp at hc
  | @cons chunk older _ _ _ _ hused _ _ _ ih =>
    cases older with
    | nil => simp at hc
    | cons next older =>
      rw [List.dropLast_cons_cons] at hc
      rcases List.mem_cons.1 hc with rfl | hold
      · exact hused (List.cons_ne_nil _ _)
      · exact ih hold

/-- What changes only the memory of the newest chunk keeps the entries of the older ones. -/
theorem Piled.older_memory (h : Piled m older es) (ha : Apart (chunk :: older)) {s : Slice}
    (hs : s.Inside chunk.mem) (hw : WrittenIn [s] m m') :
    Piled m' older es ∧ AgreesOn (es.map Entry.extent) m m' := by
  have hagree : AgreesOn (es.map Entry.extent) m m' := by
    refine hw.agreesOn ?_
    intro extent hmem
    obtain ⟨e, he, rfl⟩ := List.mem_map.1 hmem
    obtain ⟨c, hc, hin⟩ := h.inside he
    exact (ha.head hc).mono hs hin
  exact ⟨h.memory (Entry.agreesOn_headers_of_extents hagree), hagree⟩

/-! ### What the operations do to the chunks -/

theorem Piled.locate (h : Piled m (chunk :: older) (e :: es)) :
    chunk.region.buffer = chunk.mem ∧ (older ≠ [] → 0 < chunk.region.used) ∧
      ∃ top rest, (top ++ rest).Perm es ∧
        (chunk.region.Sound m (e :: top) ∧ Piled m older rest ∨
          chunk.region.Sound m top ∧ Piled m older (e :: rest)) := by
  cases h with
  | @cons _ _ top rest _ hbuf hused hsound hpiled hsplit =>
  refine ⟨hbuf, hused, ?_⟩
  rcases List.mem_append.1 (hsplit.mem_iff.2 List.mem_cons_self) with htop | hrest
  · obtain ⟨pre, post, rfl⟩ := List.append_of_mem htop
    refine ⟨pre ++ post, rest, ?_, .inl ⟨hsound.perm List.perm_middle, hpiled⟩⟩
    exact ((List.perm_middle.append_right rest).symm.trans hsplit).cons_inv
  · obtain ⟨pre, post, rfl⟩ := List.append_of_mem hrest
    refine ⟨top, pre ++ post, ?_, .inr ⟨hsound, hpiled.perm List.perm_middle⟩⟩
    have hmid : (top ++ (pre ++ e :: post)).Perm (e :: (top ++ (pre ++ post))) :=
      (List.perm_middle.append_left top).trans List.perm_middle
    exact (hmid.symm.trans hsplit).cons_inv

theorem Piled.forget (h : Piled m chunks (e :: es)) : Piled m chunks es := by
  induction chunks generalizing es with
  | nil => cases h
  | cons chunk older ih =>
    obtain ⟨hbuf, hused, top, rest, hsplit, ⟨hsound, hpiled⟩ | ⟨hsound, hpiled⟩⟩ := h.locate
    · exact .cons hbuf hused hsound.forget hpiled hsplit
    · exact .cons hbuf hused hsound (ih hpiled) hsplit

/-- A block that is put on a chunk above all others is a new entry. -/
theorem Piled.push {top rest : List Entry} {size align : Nat} {block : Slice} {region : Region}
    (h : Piled m older rest) (ha : Apart (chunk :: older)) (hbuf : chunk.region.buffer = chunk.mem)
    (hsound : chunk.region.Sound m top) (hsplit : (top ++ rest).Perm es) (hs : 0 < size)
    (halloc : chunk.region.alloc m size align = .ok (some (block, region, m'))) :
    Piled m' ({ chunk with region } :: older) (⟨block, chunk.region.used⟩ :: es) ∧
      AgreesOn (es.map Entry.extent) m m' ∧ WrittenIn [chunk.mem] m m' := by
  obtain ⟨hnew, hagree⟩ := hsound.push hs halloc
  obtain ⟨_, _, _, _, _, _, hm'⟩ := alloc_eq_some halloc
  have hbuf' : region.buffer = chunk.mem := (alloc_buffer halloc).trans hbuf
  have hin : (Entry.header ⟨block, chunk.region.used⟩).Inside chunk.mem := by
    rw [← hbuf']
    exact (Entry.header_inside _).trans (hnew.extent_inside List.mem_cons_self)
  have hwritten : WrittenIn [Entry.header ⟨block, chunk.region.used⟩] m m' := by
    rw [hm']
    exact writtenIn_write _ _ _ _
  obtain ⟨hpiled, hagree'⟩ := h.older_memory ha hin hwritten
  refine ⟨.cons hbuf' (fun _ => hnew.used_pos List.mem_cons_self) hnew hpiled (hsplit.cons _),
    ?_, ?_⟩
  · refine (hagree.append hagree').subset ?_
    rw [← List.map_append]
    exact (hsplit.map Entry.extent).symm.subset
  · refine hwritten.inside fun s hs => ⟨chunk.mem, List.mem_singleton_self _, ?_⟩
    rw [List.mem_singleton.1 hs]
    exact hin

theorem has_addr_of_owns {region : Region} {block : Slice} (h : region.owns block = .ok true)
    (hpos : 0 < block.len) : region.buffer.Has block.addr := by
  have := owns_eq_true h
  simp only [buffer, Slice.Has]
  omega

theorem Piled.not_owned (h : Piled m older (e :: es)) (ha : Apart (chunk :: older))
    (hbuf : chunk.region.buffer = chunk.mem) : chunk.region.owns e.block ≠ .ok true := by
  intro howns
  have hpos := h.nonempty List.mem_cons_self
  obtain ⟨c, hc, hin⟩ := h.inside List.mem_cons_self
  have hhas := has_addr_of_owns howns hpos
  rw [hbuf] at hhas
  exact ha.head hc _ hhas (has_addr_of_inside hpos (h.lower List.mem_cons_self) hin)

/-- The block that is given back is the top of the newest chunk, which is rewound; if that leaves
the chunk unused, no block lies in it. -/
theorem Piled.pop {region : Region} (h : Piled m (chunk :: older) (e :: es))
    (ha : Apart (chunk :: older))
    (hfree : chunk.region.freeTop m e.block = .ok (some region)) :
    (region.used = 0 → Piled m older es) ∧
      ((older ≠ [] → region.used ≠ 0) → Piled m ({ chunk with region } :: older) es) := by
  obtain ⟨hbuf, _, top, rest, hsplit, ⟨hsound, hpiled⟩ | ⟨_, hpiled⟩⟩ := h.locate
  · obtain ⟨hpop, _⟩ := hsound.pop hfree
    refine ⟨?_, ?_⟩
    · intro hzero
      have hempty : top = [] := by
        refine List.eq_nil_iff_forall_not_mem.2 ?_
        intro e' he'
        exact absurd hzero (Nat.pos_iff_ne_zero.1 (hpop.used_pos he'))
      rw [hempty] at hsplit
      exact hpiled.perm hsplit
    · intro hused
      have hbuf' : region.buffer = chunk.mem := (freeTop_buffer hfree).trans hbuf
      exact .cons hbuf' (fun hne => Nat.pos_of_ne_zero (hused hne)) hpop hpiled hsplit
  · obtain ⟨htop, _⟩ := freeTop_eq_some hfree
    exact absurd (isTop_eq_true htop).1 (hpiled.not_owned ha hbuf)

/-- What was acquired behind for a chunk: a block, and the alignment that was asked for. -/
def acquired (chunk : Chunk) : Slice × Nat := (chunk.mem, chunk.align)

theorem resizeIn_acquired {block : Slice} {size align : Nat} {chunks chunks' : List Chunk}
    (h : resizeIn block size align chunks = .ok (some chunks')) :
    chunks'.map acquired = chunks.map acquired := by
  induction chunks generalizing chunks' with
  | nil => simp [resizeIn, Fault.pure_ok] at h
  | cons chunk older ih =>
    simp only [resizeIn] at h
    obtain ⟨owned, _, h⟩ := Fault.bind_ok.1 h
    cases owned with
    | true =>
      simp only [if_true] at h
      obtain ⟨found, _, h⟩ := Fault.bind_ok.1 h
      cases found with
      | none => simp [Fault.pure_ok] at h
      | some region =>
        simp only [Fault.pure_ok, Option.some.injEq] at h
        rw [h, List.map_cons, List.map_cons]
        rfl
    | false =>
      simp only [Bool.false_eq_true, if_false] at h
      obtain ⟨found, hres, h⟩ := Fault.bind_ok.1 h
      cases found with
      | none => simp [Fault.pure_ok] at h
      | some older' =>
        simp only [Fault.pure_ok, Option.some.injEq] at h
        rw [h, List.map_cons, List.map_cons, ih hres]

theorem resizeIn_mem {block : Slice} {size align : Nat} {chunks chunks' : List Chunk}
    (h : resizeIn block size align chunks = .ok (some chunks')) :
    chunks'.map (·.mem) = chunks.map (·.mem) := by
  have hmap := congrArg (List.map Prod.fst) (resizeIn_acquired h)
  rwa [List.map_map, List.map_map] at hmap

/-- A block that is resized in place is aligned and keeps its entry, with a new length; the chunks
keep their memory. -/
theorem Piled.regrow {size align : Nat} {chunks' : List Chunk} (h : Piled m chunks (e :: es))
    (ha : Apart chunks) (hs : 0 < size) (hpow : ∃ k, align = 2 ^ k)
    (hr : resizeIn e.block size align chunks = .ok (some chunks')) :
    align ∣ e.block.addr ∧ Piled m chunks' (⟨⟨e.block.addr, size⟩, e.below⟩ :: es) := by
  induction chunks generalizing es chunks' with
  | nil => cases h
  | cons chunk older ih =>
    simp only [resizeIn] at hr
    obtain ⟨owned, howns, hr⟩ := Fault.bind_ok.1 hr
    obtain ⟨hbuf, hused, top, rest, hsplit, hcase⟩ := h.locate
    cases owned with
    | true =>
      simp only [if_true] at hr
      obtain ⟨found, hres, hr⟩ := Fault.bind_ok.1 hr
      cases found with
      | none => simp [Fault.pure_ok] at hr
      | some region =>
        simp only [Fault.pure_ok, Option.some.injEq] at hr
        subst hr
        rcases hcase with ⟨hsound, hpiled⟩ | ⟨_, hpiled⟩
        · obtain ⟨hdvd, hnew⟩ := hsound.regrow hs hpow hres
          have hbuf' : region.buffer = chunk.mem := (resizeInPlace_buffer hres).trans hbuf
          exact ⟨hdvd, .cons hbuf' (fun _ => hnew.used_pos List.mem_cons_self) hnew hpiled
            (hsplit.cons _)⟩
        · exact absurd howns (hpiled.not_owned ha hbuf)
    | false =>
      simp only [Bool.false_eq_true, if_false] at hr
      obtain ⟨found, hres, hr⟩ := Fault.bind_ok.1 hr
      cases found with
      | none => simp [Fault.pure_ok] at hr
      | some older' =>
        simp only [Fault.pure_ok, Option.some.injEq] at hr
        subst hr
        rcases hcase with ⟨hsound, _⟩ | ⟨hsound, hpiled⟩
        · have h1 := hsound.extent_inside List.mem_cons_self
          rcases owns_eq_false howns with hlow | hhigh
          · have := hsound.lower e List.mem_cons_self
            omega
          · have h2 := hsound.upper e List.mem_cons_self
            have h3 := hsound.used_le
            omega
        · obtain ⟨hdvd, hnew⟩ := ih hpiled ha.tail hres
          have hne : older' ≠ [] → older ≠ [] := fun hne hnil => by
            have := resizeIn_mem hres
            rw [hnil, List.map_nil, List.map_eq_nil_iff] at this
            exact hne this
          exact ⟨hdvd, .cons hbuf (fun h => hused (hne h)) hsound hnew
            (List.perm_middle.trans (hsplit.cons _))⟩

end AllocChain.Arena
