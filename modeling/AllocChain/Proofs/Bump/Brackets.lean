import AllocChain.Proofs.Bump.Restore
import AllocChain.Proofs.Frame
import AllocChain.Proofs.Housed
import AllocChain.Proofs.Trace

/-!
An arena treats the allocator behind it as a stack: of the chunks that it has not given back, only
the newest ever goes. `Pile` lists what a property of the chunks, the newest first, has to survive
for that; it holds in every state of an arena if every byte that is written lies in a chunk
(`Arena.OnPile`). Two such properties are of interest. The calls that the allocator behind gets are
well bracketed, whatever it answers and whatever the client does (`Bracketed.pile`). And an
allocator that can be unwound can be unwound by giving back the chunks (`Unwinding.pile`), so a
fixed allocator is used exactly up to the end of the newest chunk.
-/

namespace AllocChain

open Memory Region

variable {β γ : Type}

/-- What a property of some blocks, the newest first, has to survive if only the newest of them is
ever taken back and only what lies in them is written. -/
structure Pile (B : Allocator β) (pile : List Slice → β × Machine → Prop) : Prop where
  write {out b m m'} : pile out (b, m) → WrittenIn out m.memory m'.memory → pile out (b, m')
  alloc {out s size align block t} : pile out s → B.alloc size align s = .ok (.ok block, t) →
    pile (block :: out) t
  alloc_refused {out s size align e t} : pile out s → B.alloc size align s = .ok (.error e, t) →
    pile out t
  free {out s block t} : pile (block :: out) s → B.free block s = .ok ((), t) → pile out t

theorem Pile.report {B : Allocator β} {pile : List Slice → β × Machine → Prop} (hP : Pile B pile)
    {out : List Slice} {b : β} {m : Machine} {es : List Event} (h : pile out (b, m)) :
    pile out (b, m.report es) :=
  hP.write h (.refl _ _)

namespace Arena

variable {B : Allocator β} {pile : List Slice → β × Machine → Prop}
  {s t : (Arena × β) × Machine} {size align : Nat} {block mem : Slice} {r : Answer}
  {chunks chunks' : List Chunk} {chunk : Chunk}

/-- Every chunk is a region over its memory, and the memories have the property. -/
structure OnPile (pile : List Slice → β × Machine → Prop) (s : (Arena × β) × Machine) : Prop where
  buffers : ∀ chunk ∈ s.1.1.chunks, chunk.region.buffer = chunk.mem
  piled : pile (s.1.1.chunks.map (·.mem)) (s.1.2, s.2)

/-- A resize in place leaves every chunk over its memory. -/
theorem resizeIn_buffers (h : resizeIn mem size align chunks = .ok (some chunks'))
    (hbuf : ∀ chunk ∈ chunks, chunk.region.buffer = chunk.mem) :
    ∀ chunk ∈ chunks', chunk.region.buffer = chunk.mem := by
  induction chunks generalizing chunks' with
  | nil => simp [resizeIn, Fault.pure_ok] at h
  | cons chunk older ih =>
    obtain ⟨hfirst, hrest⟩ := List.forall_mem_cons.1 hbuf
    simp only [resizeIn] at h
    obtain ⟨owned, _, h⟩ := Fault.bind_ok.1 h
    cases owned with
    | true =>
      simp only [if_true] at h
      obtain ⟨found, hres, h⟩ := Fault.bind_ok.1 h
      cases found with
      | none => simp [Fault.pure_ok] at h
      | some region =>
        simp only [Fault.pure_ok, Option.some.injEq] at h
        subst h
        exact List.forall_mem_cons.2 ⟨(resizeInPlace_buffer hres).trans hfirst, hrest⟩
    | false =>
      simp only [Bool.false_eq_true, if_false] at h
      obtain ⟨found, hres, h⟩ := Fault.bind_ok.1 h
      cases found with
      | none => simp [Fault.pure_ok] at h
      | some older' =>
        simp only [Fault.pure_ok, Option.some.injEq] at h
        subst h
        exact List.forall_mem_cons.2 ⟨hfirst, ih hres hrest⟩

namespace OnPile

theorem write (hP : Pile B pile) (h : OnPile pile s) {f : Memory → Memory}
    (hw : WrittenIn (s.1.1.chunks.map (·.mem)) s.2.memory (f s.2.memory)) :
    OnPile pile (s.1, s.2.mapMemory f) :=
  ⟨h.buffers, hP.write h.piled hw⟩

theorem push {older : List Chunk} {a : Arena} {b : β} {m : Machine} {region : Region}
    {memory : Memory} (hP : Pile B pile)
    (hbuf : ∀ c ∈ chunk :: older, c.region.buffer = c.mem)
    (hpile : pile ((chunk :: older).map (·.mem)) (b, m))
    (halloc : chunk.region.alloc m.memory size align = .ok (some (block, region, memory)))
    (es : List Event) :
    OnPile pile (({ a with chunks := { chunk with region } :: older }, b),
      (m.mapMemory fun _ => memory).report es) ∧ block.Inside chunk.mem := by
  obtain ⟨hfirst, hrest⟩ := List.forall_mem_cons.1 hbuf
  obtain ⟨hwritten, hin⟩ := alloc_writes halloc
  rw [hfirst] at hwritten hin
  refine ⟨⟨List.forall_mem_cons.2 ⟨(alloc_buffer halloc).trans hfirst, hrest⟩, ?_⟩, hin⟩
  exact hP.write hpile (hwritten.mem List.mem_cons_self)

/-- A request may put a chunk in front, and its block lies in a chunk. A chunk that turns out to
have no room is the newest when it goes back. -/
theorem alloc (hP : Pile B pile) (h : OnPile pile s)
    (ha : Arena.alloc B size align s = .ok (r, t)) :
    OnPile pile t ∧ ∀ block, r = .ok block →
      ∃ mem ∈ t.1.1.chunks.map (·.mem), block.Inside mem := by
  have hrefused : ∀ {e : AllocError} {u}, OnPile pile u → OnPile pile u ∧ ∀ block,
      (.error e : Answer) = .ok block → ∃ mem ∈ u.1.1.chunks.map (·.mem), block.Inside mem :=
    fun hu => ⟨hu, fun _ hbad => nomatch hbad⟩
  rcases allocBy_ok ha with ⟨e, rfl, rfl⟩ | ⟨_, _, hserve⟩
  · exact hrefused h
  cases serve_ok hserve with
  | tooLarge _ _ => exact hrefused h
  | refused _ _ hcall => exact hrefused ⟨h.buffers, hP.alloc_refused h.piled hcall⟩
  | @unusable _ mem u es v _ _ hcall _ hfree =>
    have hpile : pile (mem :: s.1.1.chunks.map (·.mem)) (u.1, u.2.report es) :=
      hP.report (hP.alloc h.piled hcall)
    exact hrefused ⟨h.buffers, hP.free hpile hfree⟩
  | @current chunk older block region memory es hc halloc =>
    have hbuf := h.buffers
    have hpile := h.piled
    rw [hc] at hbuf hpile
    obtain ⟨hend, hin⟩ := push hP hbuf hpile halloc es
    refine ⟨hend, ?_⟩
    rintro _ ⟨⟩
    exact ⟨chunk.mem, List.mem_cons_self, hin⟩
  | @fresh _ mem u block region memory es _ _ hcall halloc =>
    have hpile : pile ((⟨mem, max (normalizeAlign align) leastChunkAlign, .ofSlice mem⟩ ::
        s.1.1.chunks).map Chunk.mem) (u.1, u.2) := hP.alloc h.piled hcall
    obtain ⟨hend, hin⟩ := push hP (List.forall_mem_cons.2 ⟨rfl, h.buffers⟩) hpile halloc es
    refine ⟨hend, ?_⟩
    rintro _ ⟨⟩
    exact ⟨mem, List.mem_cons_self, hin⟩

/-- A free takes at most the newest chunk. -/
theorem free (hP : Pile B pile) (h : OnPile pile s) (hf : Arena.free B mem s = .ok ((), t)) :
    OnPile pile t := by
  cases free_ok hf with
  | ignored => exact ⟨h.buffers, hP.report h.piled⟩
  | rewound hc hfree _ =>
    have hbuf := h.buffers
    have hpile := h.piled
    rw [hc] at hbuf hpile
    obtain ⟨hfirst, hrest⟩ := List.forall_mem_cons.1 hbuf
    exact ⟨List.forall_mem_cons.2 ⟨(freeTop_buffer hfree).trans hfirst, hrest⟩, hP.report hpile⟩
  | emptied hc _ _ hcall =>
    have hbuf := h.buffers
    have hpile := h.piled
    rw [hc] at hbuf hpile
    exact ⟨(List.forall_mem_cons.1 hbuf).2, hP.free (hP.report hpile) hcall⟩

/-- What is written goes into the chunks, so the property survives all that an arena does. -/
theorem housed (hP : Pile B pile) : Housed (allocator B) (Arena.adjust B)
    (fun l => l.1.chunks.map (·.mem)) (OnPile pile) where
  resize_eq := rfl
  write hi hw := hi.write hP hw
  alloc hi ha := hi.alloc hP ha
  free hi hf := hi.free hP hf
  adjust {s mem size align r t} hi ha := by
    rcases adjust_ok ha with ⟨chunks, es, hres, _, rfl⟩ | hreloc
    · refine .inl ⟨resizeIn_buffers hres hi.buffers, ?_⟩
      have hpile : pile (s.1.1.chunks.map (·.mem)) (s.1.2, s.2.report es) := hP.report hi.piled
      rw [← resizeIn_mem hres] at hpile
      exact hpile
    · exact .inr hreloc

theorem releaseAll {out : List Slice} (hP : Pile B pile)
    (hr : Arena.releaseAll B chunks s = .ok ((), t))
    (h : pile (chunks.map (·.mem) ++ out) (s.1.2, s.2)) :
    t.1.1 = s.1.1 ∧ pile out (t.1.2, t.2) := by
  induction chunks generalizing s with
  | nil =>
    obtain ⟨_, rfl⟩ := Act.pure_ok.1 hr
    exact ⟨rfl, h⟩
  | cons chunk chunks ih =>
    obtain ⟨_, _, hrel, hrest⟩ := Act.bind_ok.1 hr
    obtain ⟨es, u, hfree, rfl⟩ := release_ok hrel
    obtain ⟨hown, hend⟩ := ih hrest (hP.free (hP.report h) hfree)
    exact ⟨hown, hend⟩

/-- A reset gives back all chunks in front of the oldest. -/
theorem reset (hP : Pile B pile) (h : OnPile pile s) (hr : Arena.reset B s = .ok ((), t)) :
    OnPile pile t ∧ t.1.1.chunks.map (·.mem) = s.1.1.chunks.getLast?.toList.map (·.mem) := by
  rcases reset_shape hr with ⟨hnil, rfl⟩ | ⟨newer, oldest, hs, hrel⟩
  · exact ⟨h, by rw [hnil]; rfl⟩
  · have hpile := h.piled
    have hbuf := h.buffers oldest (by rw [hs]; exact List.mem_append_right _ List.mem_cons_self)
    rw [hs, List.map_append] at hpile
    obtain ⟨hown, hend⟩ := releaseAll hP hrel hpile
    have hchunks : t.1.1.chunks = [{ oldest with region := oldest.region.reset }] := by rw [hown]
    refine ⟨⟨?_, ?_⟩, ?_⟩
    · rw [hchunks]
      exact List.forall_mem_singleton.2 hbuf
    · rw [hchunks]
      exact hend
    · rw [hchunks, hs, List.getLast?_concat]
      rfl

/-- Destroying an arena gives back all chunks. -/
theorem destroy (hP : Pile B pile) (h : OnPile pile s) (hd : Arena.destroy B s = .ok ((), t)) :
    OnPile pile t ∧ t.1.1.chunks = [] := by
  obtain ⟨es, hrel⟩ := destroy_shape hd
  have hpile : pile (s.1.1.chunks.map (·.mem)) (s.1.2, s.2.report es) := hP.report h.piled
  rw [← List.append_nil (List.map _ _)] at hpile
  obtain ⟨hown, hend⟩ := releaseAll hP hrel hpile
  have hchunks : t.1.1.chunks = [] := by rw [hown]
  refine ⟨⟨?_, ?_⟩, hchunks⟩
  · rw [hchunks]
    simp
  · rw [hchunks]
    exact hend

theorem sweep (hP : Pile B pile) :
    ∀ x ∈ [Arena.reset B, Arena.destroy B], ∀ s t, OnPile pile s → x s = .ok ((), t) →
      OnPile pile t := by
  intro x hx s t hi hsweep
  rcases List.mem_pair.1 hx with rfl | rfl
  · exact (hi.reset hP hsweep).1
  · exact (hi.destroy hP hsweep).1

/-! ### Chunks that can go back -/

variable {allowed : Breakdown → Prop}

/-- Where the newest can be taken back, or that breaks off as `allowed` admits, so can all. -/
theorem releaseAll_breaksOnly (hP : Pile B pile)
    (hfree : ∀ {out s block}, pile (block :: out) s → (B.free block).BreaksOnly allowed s)
    {out : List Slice} (h : pile (chunks.map (·.mem) ++ out) (s.1.2, s.2)) :
    (Arena.releaseAll B chunks).BreaksOnly allowed s := by
  induction chunks generalizing s with
  | nil => exact .pure _ _
  | cons chunk chunks ih =>
    have hreport : pile ((chunk :: chunks).map (·.mem) ++ out) (s.1.2, s.2.report
        [.chunkReleased chunk.mem.len chunk.mem.addr]) := hP.report h
    refine .bind (.emit_bind (.below (hfree hreport))) ?_
    intro _ t hrel
    obtain ⟨es, u, hcall, rfl⟩ := release_ok hrel
    exact ih (hP.free (hP.report h) hcall)

theorem reset_breaksOnly (hP : Pile B pile)
    (hfree : ∀ {out s block}, pile (block :: out) s → (B.free block).BreaksOnly allowed s)
    (h : OnPile pile s) : (Arena.reset B).BreaksOnly allowed s := by
  refine .own_bind ?_
  cases hlast : s.1.1.chunks.getLast? with
  | none => exact .pure _ _
  | some oldest =>
    obtain ⟨newer, hs⟩ := List.getLast?_eq_some_iff.1 hlast
    have hpile : pile (s.1.1.chunks.dropLast.map (·.mem) ++ [oldest.mem]) (s.1.2, s.2) := by
      have hall := h.piled
      rw [hs, List.map_append] at hall
      rw [hs, List.dropLast_concat]
      exact hall
    exact .setOwn_bind (releaseAll_breaksOnly hP hfree hpile)

theorem destroy_breaksOnly (hP : Pile B pile)
    (hfree : ∀ {out s block}, pile (block :: out) s → (B.free block).BreaksOnly allowed s)
    (h : OnPile pile s) : (Arena.destroy B).BreaksOnly allowed s := by
  have hpile : pile (s.1.1.chunks.map (·.mem) ++ []) (s.1.2, s.2) := by
    rw [List.append_nil]
    exact h.piled
  refine .own_bind (.setOwn_bind ?_)
  by_cases hany : s.1.1.chunks ≠ []
  · rw [if_pos hany]
    exact .emit_bind (releaseAll_breaksOnly hP hfree (hP.report hpile))
  · rw [if_neg hany]
    exact .pure_bind (releaseAll_breaksOnly hP hfree hpile)

end OnPile
end Arena

/-! ### Calls -/

/-- Only the newest outstanding block is freed, and none is resized. -/
def Call.Newest (out : List Slice) : Call → Prop
  | .alloc _ _ _ => True
  | .resize _ _ _ _ => False
  | .free block => out.head? = some block

/-- The calls open and close blocks like brackets: every free is for the block that was handed out
last and is still outstanding. -/
def Bracketed (calls : List Call) : Prop := Throughout (fun out call => call.Newest out) calls

/-- As long as only the newest block goes the calls are well bracketed, whatever the answers are. -/
theorem Bracketed.pile (B : Allocator β) :
    Pile B.traced fun out s => Bracketed s.1.1 ∧ outstanding s.1.1 = out where
  write h _ := h
  alloc := by
    rintro out s size align block t ⟨hcalls, hout⟩ ha
    obtain ⟨u, _, rfl⟩ := Act.noting_ok.1 ha
    refine ⟨hcalls.concat trivial, ?_⟩
    rw [outstanding_concat, hout]
    rfl
  alloc_refused := by
    rintro out s size align e t ⟨hcalls, hout⟩ ha
    obtain ⟨u, _, rfl⟩ := Act.noting_ok.1 ha
    refine ⟨hcalls.concat trivial, ?_⟩
    rw [outstanding_concat, hout]
    rfl
  free := by
    rintro out s block t ⟨hcalls, hout⟩ hf
    obtain ⟨u, _, rfl⟩ := Act.noting_ok.1 hf
    have hnewest : Call.Newest (outstanding s.1.1) (.free block) := by
      rw [hout]
      rfl
    refine ⟨hcalls.concat hnewest, ?_⟩
    rw [outstanding_concat, hout]
    exact List.erase_cons_head ..

/-! ### Regions behind -/

/-- Taking back the blocks, the newest first, leads back to the regions at the start, where the
entries of `old` were kept. -/
def Rewindable (A : Allocator γ) (regions : γ → List Region)
    (kept : List Entry → γ × Machine → Prop) (old : List Entry) (start : γ × Machine)
    (out : List Slice) (s : γ × Machine) : Prop :=
  ∃ first es base, es.map (·.block) = out ∧ Descent A regions kept old start first es base s

section Unwinding

variable {A : Allocator γ} {adjust : Slice → Nat → Nat → Act γ Answer} {regions : γ → List Region}
  {kept : List Entry → γ × Machine → Prop} {allowed : Breakdown → Prop} {old : List Entry}
  {start : γ × Machine}

/-- As long as only the newest block goes, an allocator of bump regions can be unwound. -/
theorem Unwinding.pile (hA : Unwinding A adjust regions kept allowed) (old : List Entry)
    (start : γ × Machine) : Pile A (Rewindable A regions kept old start) where
  write := by
    rintro out b m m' ⟨first, es, base, rfl, hd⟩ hw
    refine ⟨first, es, base, rfl, hd.mono (hA.stacking.write hd.kept (hw.inside ?_)) rfl⟩
    intro block hb
    rw [List.map_append]
    exact ⟨block, List.mem_append_left _ hb, .refl _⟩
  alloc := by
    rintro out s size align block t ⟨first, es, base, rfl, hd⟩ ha
    obtain ⟨base', hd'⟩ := hd.alloc hA ha
    exact ⟨_, _, base', rfl, hd'⟩
  alloc_refused := by
    rintro out s size align e t ⟨first, es, base, hout, hd⟩ ha
    exact ⟨first, es, base, hout,
      hd.mono (hA.stacking.alloc_refused hd.kept ha).1 (hA.put_refused hd.kept ha)⟩
  free := by
    rintro out s block t ⟨first, es, base, hout, hd⟩ hf
    obtain ⟨e, es, rfl, rfl, rfl⟩ := List.map_eq_cons_iff.1 hout
    exact ⟨first, es, base, rfl, hd.free hA hf⟩

theorem Unwinding.pile_breaksOnly (hA : Unwinding A adjust regions kept allowed)
    {out : List Slice} {s : γ × Machine} {block : Slice}
    (h : Rewindable A regions kept old start (block :: out) s) :
    (A.free block).BreaksOnly allowed s := by
  obtain ⟨first, es, base, hout, hd⟩ := h
  obtain ⟨e, es, rfl, rfl, _⟩ := List.map_eq_cons_iff.1 hout
  obtain ⟨r, older, hs, htop, _⟩ := hd.unwinds.uncons
  exact hA.pop_breaksOnly hd.kept hs htop

end Unwinding

/-- How much of the region is used once the blocks, the newest first, are stacked on what was used
of it before: everything up to the end of the newest. -/
def Region.usedUnder (r : Region) : List Slice → Nat
  | [] => r.used
  | block :: _ => block.addr + block.len - r.base

/-- A region that is unwound one way differs from what is reached in how much is used. -/
theorem Region.Unwinds.base_eq {r r' : Region} {es : List Entry} (h : Unwinds [r] es [r']) :
    r' = { r with used := r'.used } := by
  induction es generalizing r' with
  | nil =>
    cases h
    rfl
  | cons e es ih =>
    obtain ⟨q, older, hq, _, hrest⟩ := h.uncons
    obtain ⟨rfl, rfl⟩ := List.cons.inj hq
    rw [rewind_only] at hrest
    obtain ⟨base, capacity, used⟩ := r'
    cases ih hrest
    rfl

theorem Fixed.used_of_rewindable {old : List Entry} {start s : Region × Machine} {out : List Slice}
    (h : Rewindable allocator (fun r => [r]) Kept old start out s) :
    s.1 = { start.1 with used := start.1.usedUnder out } := by
  obtain ⟨first, es, base, rfl, hd⟩ := h
  obtain rfl : base = [start.1] := hd.same (.inl (List.cons_ne_nil _ _))
  have hbase : s.1 = { start.1 with used := s.1.used } := Unwinds.base_eq hd.unwinds
  cases es with
  | nil =>
    obtain ⟨hs, _⟩ := List.cons.inj (show [s.1] = [start.1] from hd.unwinds)
    rw [hs]
    rfl
  | cons e es =>
    obtain ⟨r, older, hr, htop, _⟩ := hd.unwinds.uncons
    obtain ⟨rfl, _⟩ := List.cons.inj hr
    have hend : e.block.addr + e.block.len - start.1.base = s.1.used := by
      have hsame : s.1.base = start.1.base := by rw [hbase]
      rw [htop.2, hsame, Nat.add_sub_cancel_left]
    rw [hbase, ← hend]
    rfl

/-- Every state of an arena over a fixed allocator that it found in state `s₀`, when only the arena
uses it from then on, can be unwound to `s₀`. -/
theorem Arena.onPile_of_run {base capacity chunkSize : Nat} {m : Machine}
    {live₀ : List (Lease Region)} {s₀ : Region × Machine} {live : List (Lease (Arena × Region))}
    {s : (Arena × Region) × Machine} (hbound : base + capacity < wordLimit)
    (hrun₀ : Run Fixed.allocator [Fixed.reset] Disciplined (⟨base, capacity, 0⟩, m) live₀ s₀)
    (hrun : Run (Arena.allocator Fixed.allocator)
      [Arena.reset Fixed.allocator, Arena.destroy Fixed.allocator] Disciplined
      ((Arena.new chunkSize, s₀.1), s₀.2) live s) :
    OnPile (Rewindable Fixed.allocator (fun r => [r]) Fixed.Kept
      (live₀.map (·.entry fun r => [r])) s₀) s := by
  have hold := (Fixed.tenants_of_run hbound hrun₀).kept
  have hB := Fixed.stacking.contract.framed ((live₀.map (·.entry fun r => [r])).map (·.block))
    s₀.2.memory
  have hback : Framed (Stacking.Holds Fixed.Kept) ((live₀.map (·.entry fun r => [r])).map (·.block))
      s₀.2.memory [] s₀ := ⟨⟨_, .refl _, hold⟩, .refl _ _⟩
  have hP := Fixed.unwinding.pile (live₀.map (·.entry fun r => [r])) s₀
  refine (OnPile.housed hP).run (OnPile.sweep hP) ?_
    ⟨by simp [Arena.new], none, [], _, rfl, .initial hold⟩ hrun
  intro live s addr byte hrun hwrite hi
  -- a client writes into its blocks, and these lie in the chunks
  have hkept := (Arena.tenants_of_run hB.supply hB.custody hback hrun).kept
  refine hi.write hP (hkept.writtenIn ?_)
  rw [Lease.map_entry_block]
  exact hwrite.writtenIn s.2.memory fun _ => byte

/-- An arena gives back chunks in the reverse order: over any allocator, whatever its clients do,
the calls that it makes are well bracketed, and what is outstanding are its chunks, the newest
first. Over a fixed allocator that only it uses from some state on, used is what was used then and
everything up to the end of the newest chunk; a reset leaves what is below the end of the oldest
chunk, and destroying the arena restores the state. -/
theorem stacked_of_runs :
    (∀ {β : Type} {B : Allocator β} {chunkSize : Nat} {b : β} {m : Machine}
      {live : List (Lease (Arena × List Call × β))} {s : (Arena × List Call × β) × Machine},
      Run (Arena.allocator B.traced) [Arena.reset B.traced, Arena.destroy B.traced] Unruly
        ((Arena.new chunkSize, [], b), m) live s →
      Bracketed s.1.2.1 ∧ outstanding s.1.2.1 = s.1.1.chunks.map (·.mem)) ∧
    ∀ {base capacity chunkSize : Nat} {m : Machine} {live₀ : List (Lease Region)}
      {s₀ : Region × Machine} {live : List (Lease (Arena × Region))}
      {s : (Arena × Region) × Machine}, base + capacity < wordLimit →
      Run Fixed.allocator [Fixed.reset] Disciplined (⟨base, capacity, 0⟩, m) live₀ s₀ →
      Run (Arena.allocator Fixed.allocator)
        [Arena.reset Fixed.allocator, Arena.destroy Fixed.allocator] Disciplined
        ((Arena.new chunkSize, s₀.1), s₀.2) live s →
      s.1.2 = { s₀.1 with used := s₀.1.usedUnder (s.1.1.chunks.map (·.mem)) } ∧
      (∃ t, Arena.reset Fixed.allocator s = .ok ((), t) ∧ t.1.2 = { s₀.1 with
        used := s₀.1.usedUnder (s.1.1.chunks.getLast?.toList.map (·.mem)) }) ∧
      ∃ t, Arena.destroy Fixed.allocator s = .ok ((), t) ∧ t.1.2 = s₀.1 := by
  constructor
  · intro β B chunkSize b m live s hrun
    have hstart : Arena.OnPile (fun out s => Bracketed s.1.1 ∧ outstanding s.1.1 = out)
        ((Arena.new chunkSize, ([] : List Call), b), m) := ⟨by simp [Arena.new], .nil, rfl⟩
    have hP := Bracketed.pile B
    have hpile := (Arena.OnPile.housed hP).run (Arena.OnPile.sweep hP)
      (fun _ _ hi => ⟨hi.buffers, hi.piled⟩) hstart hrun
    exact hpile.piled
  · intro base capacity chunkSize m live₀ s₀ live s hbound hrun₀ hrun
    have hi := Arena.onPile_of_run hbound hrun₀ hrun
    have hP := Fixed.unwinding.pile (live₀.map (·.entry fun r => [r])) s₀
    have hfree : ∀ {out s block}, Rewindable Fixed.allocator (fun r => [r]) Fixed.Kept
        (live₀.map (·.entry fun r => [r])) s₀ (block :: out) s →
        (Fixed.allocator.free block).BreaksOnly (fun _ => False) s :=
      fun h => Fixed.unwinding.pile_breaksOnly h
    obtain ⟨_, t, hreset⟩ := (hi.reset_breaksOnly hP hfree).returns
    obtain ⟨_, u, hdestroy⟩ := (hi.destroy_breaksOnly hP hfree).returns
    obtain ⟨hi', hchunks⟩ := hi.reset hP hreset
    obtain ⟨hi'', hnil⟩ := hi.destroy hP hdestroy
    refine ⟨Fixed.used_of_rewindable hi.piled, ⟨t, hreset, ?_⟩, u, hdestroy, ?_⟩
    · have hused := Fixed.used_of_rewindable hi'.piled
      rwa [hchunks] at hused
    · have hused := Fixed.used_of_rewindable hi''.piled
      rwa [hnil] at hused

/-- An arena whose clients free strangers and stale blocks, and one on top of an older block of the
buffer, with three chunks of which one has gone back. -/
theorem stacked_of_two_clients :
    (∃ live s, Run (Arena.allocator Fixed.allocator.traced)
        [Arena.reset Fixed.allocator.traced, Arena.destroy Fixed.allocator.traced] Unruly
        ((Arena.new 64, [], ⟨64, 1024, 0⟩), ⟨.zero, [], []⟩) live s ∧
      s.1.2.1.map (fun call => match call with | .free block => block.addr | _ => 0) =
        [0, 0, 144, 0] ∧
      Bracketed s.1.2.1 ∧ outstanding s.1.2.1 = s.1.1.chunks.map (·.mem)) ∧
    ∃ live₀ s₀ live s,
      Run Fixed.allocator [Fixed.reset] Disciplined (⟨64, 1024, 0⟩, ⟨.zero, [], []⟩) live₀ s₀ ∧
      Run (Arena.allocator Fixed.allocator)
        [Arena.reset Fixed.allocator, Arena.destroy Fixed.allocator] Disciplined
        ((Arena.new 64, s₀.1), s₀.2) live s ∧
      s₀.1.used = 24 ∧ s.1.1.chunks.map (·.mem) = [⟨168, 64⟩, ⟨96, 64⟩] ∧
      s.1.2 = { s₀.1 with used := s₀.1.usedUnder (s.1.1.chunks.map (·.mem)) } := by
  have hunruly : ((Arena.allocator Fixed.allocator.traced).play Unruly
      [.alloc 40 8, .alloc 40 8, .free ⟨3, 4⟩, .free ⟨152, 40⟩, .write 100 9, .alloc 60 8,
        .free ⟨80, 40⟩] []
      ((Arena.new 64, [], ⟨64, 1024, 0⟩), ⟨.zero, [], []⟩)).map
        (·.2.1.2.1.map fun call => match call with | .free block => block.addr | _ => 0) =
        some [0, 0, 144, 0] := by
    decide +kernel
  have hover : ((Fixed.allocator.play Disciplined [.alloc 16 8] []
      (⟨64, 1024, 0⟩, ⟨.zero, [], []⟩)).bind fun r =>
        ((Arena.allocator Fixed.allocator).play Disciplined
          [.alloc 40 8, .alloc 40 8, .alloc 40 8, .write 104 7, .free ⟨248, 40⟩] []
          ((Arena.new 64, r.2.1), r.2.2)).map fun q => (r.2.1.used, q.2.1.1.chunks.map (·.mem))) =
        some (24, [⟨168, 64⟩, ⟨96, 64⟩]) := by
    decide +kernel
  obtain ⟨⟨live, s⟩, hplay, hfrees⟩ := Option.map_eq_some_iff.1 hunruly
  obtain ⟨⟨live₀, s₀⟩, hplay₀, hrest⟩ := Option.bind_eq_some_iff.1 hover
  obtain ⟨⟨live', s'⟩, hplay', hends⟩ := Option.map_eq_some_iff.1 hrest
  obtain ⟨hused, hchunks⟩ := Prod.mk.inj hends
  have hrun : Run (Arena.allocator Fixed.allocator.traced)
      [Arena.reset Fixed.allocator.traced, Arena.destroy Fixed.allocator.traced] Unruly _ live s :=
    Run.start.play hplay
  have hrun₀ : Run Fixed.allocator [Fixed.reset] Disciplined _ live₀ s₀ := Run.start.play hplay₀
  have hrun' : Run (Arena.allocator Fixed.allocator)
      [Arena.reset Fixed.allocator, Arena.destroy Fixed.allocator] Disciplined _ live' s' :=
    Run.start.play hplay'
  exact ⟨⟨live, s, hrun, hfrees, stacked_of_runs.1 hrun⟩,
    ⟨live₀, s₀, live', s', hrun₀, hrun', hused, hchunks,
      (stacked_of_runs.2 (by decide) hrun₀ hrun').1⟩⟩

end AllocChain
