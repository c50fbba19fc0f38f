import AllocChain.Proofs.Bump.Low
import AllocChain.Proofs.Bump.Seated

/-!
Two runs of an allocator of bump regions. The regions are the same, whatever else the memories
hold, because the headers are: the same entries lie in them in both runs. So a fixed allocator is
its own twin (`Fixed.twins`), and so it is with its buffer on another allocator
(`Fixed.seated_twins`).
-/

namespace AllocChain

/-- What is alike in a layer that calls nothing below is alike. -/
theorem Act.Alike.above {L α β : Type} {may : Prop}
    {post : α → (L × β) × Machine → (L × β) × Machine → Prop} {x x' : Act L α}
    {s s' : (L × β) × Machine}
    (h : Alike may (fun a u u' => post a ((u.1, s.1.2), u.2) ((u'.1, s'.1.2), u'.2)) x x'
      (s.1.1, s.2) (s'.1.1, s'.2)) :
    Alike may post (Act.above x) (Act.above x') s s' := by
  intro hlog
  have hends := h hlog
  obtain ⟨⟨l, b⟩, m⟩ := s
  obtain ⟨⟨l', b'⟩, m'⟩ := s'
  rw [above_apply, above_apply]
  generalize x (l, m) = r at hends
  generalize x' (l', m') = r' at hends
  cases hends with
  | ends hlog' hpost => exact .ends hlog' hpost
  | breaks hmay => exact .breaks hmay

namespace Fixed

open Memory Region

variable {T : Terms} {n : Nat} {out out' : List Slice} {s s' : Region × Machine}
  {size align k : Nat}
  {e : Entry} {es : List Entry}

/-- The same region over two memories, with the same blocks in it. -/
structure Twin (T : Terms) (out : List Slice) (s s' : Region × Machine) : Prop where
  region : s'.1 = s.1
  stacked : ∃ es : List Entry, (es.map (·.block)).Perm out ∧ Kept es s ∧ Kept es s'
  top : T.may ∨ s.1.base + s.1.capacity ≤ addressLimit
  mirror : T.mirror → s' = s

namespace Twin

theorem perm (h : Twin T out s s') (hp : out.Perm out') : Twin T out' s s' := by
  obtain ⟨es, hes, hk, hk'⟩ := h.stacked
  exact { h with stacked := ⟨es, hes.trans hp, hk, hk'⟩ }

theorem uncons {block : Slice} (h : Twin T (block :: out) s s') :
    ∃ e es, e.block = block ∧ (es.map (·.block)).Perm out ∧ Kept (e :: es) s ∧ Kept (e :: es) s' :=
  Stacking.entry_of_perm (fun hp hk => ⟨stacking.perm hp hk.1, stacking.perm hp hk.2⟩) h.stacked

theorem write {w w' : Machine} (h : Twin T out s s') (hw : WrittenIn out s.2.memory w.memory)
    (hw' : WrittenIn out s'.2.memory w'.memory) (hmirror : T.mirror → w' = w) :
    Twin T out (s.1, w) (s'.1, w') := by
  obtain ⟨es, hp, hk, hk'⟩ := h.stacked
  have hin : ∀ block ∈ out, ∃ o ∈ es.map (·.block), block.Inside o :=
    fun block hb => ⟨block, hp.mem_iff.2 hb, .refl _⟩
  refine ⟨h.region,
    ⟨es, hp, stacking.write hk (hw.inside hin), stacking.write hk' (hw'.inside hin)⟩,
    h.top, fun hm => ?_⟩
  rw [h.region, hmirror hm]

theorem low (h : Twin T out s s') :
    T.may ∨ ∀ block ∈ out, block.addr + block.len ≤ addressLimit := by
  obtain ⟨es, hp, hk, _⟩ := h.stacked
  refine h.top.imp_right fun htop block hb => ?_
  obtain ⟨e, he, rfl⟩ := List.mem_map.1 (hp.mem_iff.2 hb)
  have h1 := Sound.upper hk e he
  have h2 := Sound.used_le hk
  omega

theorem inside (h : Twin T out s s') {block : Slice} (hb : block ∈ out) :
    block.Inside s.1.buffer := by
  obtain ⟨es, hp, hk, _⟩ := h.stacked
  obtain ⟨e, he, rfl⟩ := List.mem_map.1 (hp.mem_iff.2 hb)
  exact (Entry.block_inside (stacking.lower hk e he)).trans (Sound.extent_inside hk he)

end Twin

theorem push_alike (h : Twin T out s s') (hs : 0 < size) (hpow : ∃ k, align = 2 ^ k) :
    Act.Alike T.may (Answered T (Twin T) (ValidRequest size align) out out) (push size align)
      (push size align) s s' := by
  obtain ⟨es, hp, hk, hk'⟩ := h.stacked
  obtain ⟨r, m⟩ := s
  obtain ⟨r', m'⟩ := s'
  obtain rfl : r' = r := h.region
  simp only [push]
  refine .get_bind (alloc_alike (h.top.imp_right (Sound.low hk)) hpow
    (.pure ⟨h, fun _ => T.exhausted _ _⟩) fun block region memory memory' ha ha' hsame => ?_)
  refine .set_bind id (.emit_bind (.pure ?_))
  obtain ⟨_, _, _, _, _, hregion, _⟩ := alloc_eq_some ha
  refine ⟨rfl, ⟨⟨block, r'.used⟩ :: es, hp.cons block, (Sound.push hk hs ha).1,
    (Sound.push hk' hs ha').1⟩, ?_, fun hm => ?_⟩
  · rw [hregion]
    exact h.top
  · obtain rfl : m' = m := congrArg Prod.snd (h.mirror hm)
    rw [hsame rfl]

/-- A block is taken off both regions, or ignored in both. -/
theorem free_alike {block : Slice} (h : Twin T (block :: out) s s') :
    Act.Alike T.may (fun _ => Twin T out) (free block) (free block) s s' := by
  obtain ⟨e, es, rfl, hp, hk, hk'⟩ := h.uncons
  obtain ⟨r, m⟩ := s
  obtain ⟨r', m'⟩ := s'
  obtain rfl : r' = r := h.region
  have hnull := Slice.isNull_eq_false.2 (stacking.not_null hk List.mem_cons_self)
  simp only [free, hnull, Bool.false_eq_true, if_false]
  refine .get_bind (freeTop_alike (h.top.imp_right (Sound.low hk)) hk hk' fun found hf hf' => ?_)
  cases found with
  | none =>
    refine .emit ⟨rfl, ⟨es, hp, Sound.forget hk, Sound.forget hk'⟩, h.top, fun hm => ?_⟩
    rw [congrArg Prod.snd (h.mirror hm)]
  | some region =>
    refine .set id ⟨rfl, ⟨es, hp, (Sound.pop hk hf).1, (Sound.pop hk' hf').1⟩, ?_, fun hm => ?_⟩
    · rw [(freeTop_eq_some hf).2]
      exact h.top
    · rw [congrArg Prod.snd (h.mirror hm)]

theorem kindred (T : Terms) :
    Kindred T.open allocator (Stacking.Holds Kept) (Stacking.Holds Kept) fun _ => Twin T where
  left := service.keeper
  right := service.keeper
  fewer := id
  perm hp h := h.perm hp
  mirror hm h := h.mirror hm
  write hp hw hw' hmirror := hp.related.write hw hw' hmirror
  low hp := hp.related.low
  alloc hp _ := .allocBy hp.related fun k hs => push_alike hp.related hs ⟨k, rfl⟩
  free hp := free_alike hp.related
  free_null {n out s s' block} hp hn := by
    change Act.Alike T.may _ (free block) (free block) s s'
    simp only [free, hn, if_true]
    exact .pure hp.related

/-- A fixed allocator answers alike over all memories that hold the same headers. -/
theorem twins (T : Terms) :
    Twins T.open allocator (Stacking.Holds Kept) (Stacking.Holds Kept) fun _ => Twin T := by
  have hresize : allocator.resize = resizeBy allocator.alloc allocator.free adjust := rfl
  refine (kindred T).twins service service hresize fun {n out s s' old size k} hp hn hs => ?_
  obtain ⟨e, es, rfl, hperm, hk, hk'⟩ := hp.related.uncons
  have hmoved := (kindred T).relocate (n := n) hp (validRequest_two_pow hs k)
  have h := hp.related
  obtain ⟨r, m⟩ := s
  obtain ⟨r', m'⟩ := s'
  obtain rfl : r' = r := h.region
  simp only [adjust]
  refine .get_bind (.lift_bind (h.top.imp_right fun htop => ?_) fun found hres => ?_)
  · exact (Sound.low hk htop).resizeInPlace_returns (Sound.bounded_block hk List.mem_cons_self) _ _
  cases found with
  | none => exact hmoved
  | some region =>
    refine .set_bind id (.emit_bind (.pure ⟨rfl, ⟨⟨⟨e.block.addr, size⟩, e.below⟩ :: es,
      hperm.cons _, (Sound.regrow hk hs ⟨k, rfl⟩ hres).2, (Sound.regrow hk' hs ⟨k, rfl⟩ hres).2⟩,
      ?_, fun hm => ?_⟩))
    · have hbuffer := resizeInPlace_buffer hres
      simp only [buffer, Slice.mk.injEq] at hbuffer
      rw [hbuffer.1, hbuffer.2]
      exact h.top
    · rw [congrArg Prod.snd (h.mirror hm)]

theorem reset_alike (h : Twin T out s s') :
    Act.Alike T.may (fun _ => Twin T []) reset reset s s' := by
  obtain ⟨es, hp, hk, hk'⟩ := h.stacked
  obtain ⟨r, m⟩ := s
  obtain ⟨r', m'⟩ := s'
  obtain rfl : r' = r := h.region
  simp only [reset]
  have hbound : r'.base + r'.capacity < wordLimit := Sound.bounded hk
  have hempty : ∀ m : Memory, r'.reset.Sound m [] := fun m => sound_empty hbound (Nat.zero_le _)
  refine .get_bind (.set id ⟨rfl, ⟨[], .nil, hempty _, hempty _⟩, h.top, fun hm => ?_⟩)
  rw [congrArg Prod.snd (h.mirror hm)]

/-! ### On top of another allocator -/

variable {β : Type} {B : Allocator β} {holds holds' : List Slice → β × Machine → Prop}
  {rel : Nat → List Slice → β × Machine → β × Machine → Prop}

/-- The buffers are one block of the allocator below, and the same blocks lie in them. -/
structure SeatedTwin (T : Terms) (rel : Nat → List Slice → β × Machine → β × Machine → Prop)
    (n : Nat) (out : List Slice) (s s' : (Region × β) × Machine) : Prop where
  below : rel n [s.1.1.buffer] (s.1.2, s.2) (s'.1.2, s'.2)
  seated : Twin T out (s.1.1, s.2) (s'.1.1, s'.2)

theorem SeatedTwin.backed {s s' : (Region × β) × Machine}
    (hp : Paired (Seated holds) (Seated holds') (SeatedTwin T rel n) out s s') :
    Paired holds holds' (rel n) [s.1.1.buffer] (s.1.2, s.2) (s'.1.2, s'.2) := by
  have hback' := hp.right.backed
  rw [show s'.1.1 = s.1.1 from hp.related.seated.region] at hback'
  exact ⟨hp.left.backed, hback', hp.related.below⟩

/-- After something that writes into the buffers only, they are still one block. -/
theorem SeatedTwin.kept {s s' : (Region × β) × Machine} {u u' : Region × Machine}
    (hB : Kindred T B holds holds' rel)
    (hp : Paired (Seated holds) (Seated holds') (SeatedTwin T rel n) out s s')
    (hk : Keeps (s.1.1, s.2) u) (hk' : Keeps (s'.1.1, s'.2) u') (hu : Twin T out' u u') :
    SeatedTwin T rel n out' ((u.1, s.1.2), u.2) ((u'.1, s'.1.2), u'.2) := by
  refine ⟨?_, hu⟩
  have hw' := hk'.2
  rw [show s'.1.1 = s.1.1 from hp.related.seated.region] at hw'
  rw [hk.1]
  refine hB.write (backed hp) hk.2 hw' fun hm => ?_
  rw [hu.mirror hm]

/-- What is answered alike by the fixed allocators is answered alike above. -/
theorem SeatedTwin.answered {s s' : (Region × β) × Machine} {x : Act Region Answer} {valid : Prop}
    {kept : List Slice} (hB : Kindred T B holds holds' rel)
    (hp : Paired (Seated holds) (Seated holds') (SeatedTwin T rel (n + 1)) out s s')
    (hkeeps : ∀ {v r u}, x v = .ok (r, u) → Keeps v u)
    (hx : Act.Alike T.may (Answered T (Twin T) valid out' kept) x x (s.1.1, s.2) (s'.1.1, s'.2)) :
    Act.Alike T.may (Answered T (SeatedTwin T rel n) valid out' kept) (Act.above x) (Act.above x)
      s s' := by
  have hfewer : Paired (Seated holds) (Seated holds') (SeatedTwin T rel n) out s s' :=
    hp.mono fun h => ⟨hB.fewer h.below, h.seated⟩
  refine .above (hx.imp fun r u u' hu hu' hpost => ?_)
  cases r with
  | ok block => exact .kept hB hfewer (hkeeps hu) (hkeeps hu') hpost
  | error e => exact ⟨.kept hB hfewer (hkeeps hu) (hkeeps hu') hpost.1, hpost.2⟩

theorem SeatedTwin.done {s s' : (Region × β) × Machine} {x : Act Region Unit}
    (hB : Kindred T B holds holds' rel)
    (hp : Paired (Seated holds) (Seated holds') (SeatedTwin T rel n) out s s')
    (hkeeps : ∀ {v u}, x v = .ok ((), u) → Keeps v u)
    (hx : Act.Alike T.may (fun _ => Twin T out') x x (s.1.1, s.2) (s'.1.1, s'.2)) :
    Act.Alike T.may (fun _ => SeatedTwin T rel n out') (Act.above x) (Act.above x) s s' :=
  .above (hx.imp fun _ _ _ hu hu' hpost => .kept hB hp (hkeeps hu) (hkeeps hu') hpost)

/-- A fixed allocator is its own twin wherever its buffer comes from. -/
theorem seated_twins (hB : Kindred T B holds holds' rel) :
    Twins T.open (allocator.lift Act.above) (Seated holds) (Seated holds') (SeatedTwin T rel) where
  left := (seated_service hB.left.supply).keeper
  right := (seated_service hB.right.supply).keeper
  service := seated_service hB.left.supply
  service' := seated_service hB.right.supply
  fewer h := ⟨hB.fewer h.below, h.seated⟩
  perm hp h := ⟨h.below, h.seated.perm hp⟩
  mirror {n out s s'} hm h := by
    obtain ⟨⟨r, b⟩, m⟩ := s
    obtain ⟨⟨r', b'⟩, m'⟩ := s'
    cases h.seated.mirror hm
    cases hB.mirror hm h.below
    rfl
  write {n out s s' w w'} hp hw hw' hmirror := by
    have hseated := hp.related.seated
    have hin : ∀ block ∈ out, ∃ o ∈ [s.1.1.buffer], block.Inside o :=
      fun block hb => ⟨_, List.mem_singleton_self _, hseated.inside hb⟩
    exact ⟨hB.write (SeatedTwin.backed hp) (hw.inside hin) (hw'.inside hin) hmirror,
      hseated.write hw hw' hmirror⟩
  low hp := hp.related.seated.low
  alloc {n out s s' size align} hp _ :=
    SeatedTwin.answered hB hp (fun hu => (alloc_keeps hu).1)
      ((kindred T).alloc (n := n) ⟨hp.left.stacked, hp.right.stacked, hp.related.seated⟩ trivial)
  resize {n out s s' old size align} hp hn hs _ :=
    SeatedTwin.answered hB hp (resize_keeps hn hs)
      ((twins T).resize (n := n) ⟨hp.left.stacked, hp.right.stacked, hp.related.seated⟩ hn hs
        trivial)
  free hp := SeatedTwin.done hB hp free_keeps (free_alike hp.related.seated)
  free_null {n out s s' block} hp hn :=
    SeatedTwin.done hB hp free_keeps
      ((kindred T).free_null (n := n) ⟨hp.left.stacked, hp.right.stacked, hp.related.seated⟩ hn)

theorem seated_reset_alike {s s' : (Region × β) × Machine} (hB : Kindred T B holds holds' rel)
    (hp : Paired (Seated holds) (Seated holds') (SeatedTwin T rel n) out s s') :
    Act.Alike T.may (fun _ => SeatedTwin T rel n []) (Act.above reset) (Act.above reset) s s' :=
  SeatedTwin.done hB hp reset_keeps (reset_alike hp.related.seated)

end Fixed
end AllocChain
