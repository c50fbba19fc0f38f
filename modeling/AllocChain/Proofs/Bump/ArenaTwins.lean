import AllocChain.Proofs.Bump.Opening
import AllocChain.Proofs.Bump.Twins

/-!
Two runs of an arena. The chunks are the same, and the same entries lie in them, so the headers say
the same and everything that the arena asks of the allocator behind it asks in both runs. An arena
over an allocator that answers its requests alike is its own twin (`Arena.twins`).
-/

namespace AllocChain.Arena

open Region Memory

variable {β : Type} {B : Allocator β} {T : Terms}
  {holds holds' : List Slice → β × Machine → Prop}
  {rel : Nat → List Slice → β × Machine → β × Machine → Prop} {n : Nat} {out : List Slice}
  {s s' : (Arena × β) × Machine} {size align k : Nat} {e : Entry}
  {es rest rest' top top' : List Entry}
  {chunk : Chunk} {chunks older : List Chunk} {m m' : Memory} {mem : Slice}

theorem Piled.behind (h : Piled m chunks es) (hsame : AgreesOn (chunks.map (·.mem)) m m') :
    Piled m' chunks es := by
  refine h.memory (Entry.agreesOn_headers_of_extents (hsame.inside ?_))
  intro extent hmem
  obtain ⟨e, he, rfl⟩ := List.mem_map.1 hmem
  obtain ⟨c, hc, hin⟩ := h.inside he
  exact ⟨c.mem, List.mem_map_of_mem hc, hin⟩

/-- The arenas are the same, the chunks are held alike, and the same blocks lie in them. -/
structure Twin (rel : Nat → List Slice → β × Machine → β × Machine → Prop) (n : Nat)
    (out : List Slice) (s s' : (Arena × β) × Machine) : Prop
    extends Twins.Atop (fun a => a.chunks.map (·.mem)) rel n s s' where
  piled : ∃ es : List Entry, (es.map (·.block)).Perm out ∧ Piled s.2.memory s.1.1.chunks es ∧
    Piled s'.2.memory s.1.1.chunks es

/-- What is known of two arenas with the same entries. -/
structure Both (holds holds' : List Slice → β × Machine → Prop)
    (rel : Nat → List Slice → β × Machine → β × Machine → Prop) (n : Nat) (es : List Entry)
    (s s' : (Arena × β) × Machine) : Prop where
  own : s'.1.1 = s.1.1
  below : Paired holds holds' (rel n) (s.1.1.chunks.map (·.mem)) (s.1.2, s.2) (s'.1.2, s'.2)
  left : Piled s.2.memory s.1.1.chunks es
  right : Piled s'.2.memory s.1.1.chunks es

theorem Twin.both
    (hp : Paired (Stacking.Holds (Kept holds)) (Stacking.Holds (Kept holds')) (Twin rel n) out
      s s') :
    ∃ es : List Entry, (es.map (·.block)).Perm out ∧ Both holds holds' rel n es s s' := by
  obtain ⟨es, hperm, hl, hr⟩ := hp.related.piled
  obtain ⟨_, _, hk⟩ := hp.left
  obtain ⟨_, _, hk'⟩ := hp.right
  exact ⟨es, hperm, hp.related.own, hp.related.paired hk.backed hk'.backed, hl, hr⟩

namespace Both

theorem twin (h : Both holds holds' rel n es s s') (hperm : (es.map (·.block)).Perm out) :
    Twin rel n out s s' :=
  ⟨⟨h.own, h.below.related⟩, es, hperm, h.left, h.right⟩

theorem apart (hB : Kindred T B holds holds' rel) (h : Both holds holds' rel n es s s') :
    Apart s.1.1.chunks :=
  hB.left.supply.apart h.below.left

theorem fewer (hB : Kindred T B holds holds' rel) (h : Both holds holds' rel (n + 1) es s s') :
    Both holds holds' rel n es s s' :=
  { h with below := h.below.mono hB.fewer }

theorem behind (h : Both holds holds' rel n es s s') {n' : Nat} {u u' : β × Machine}
    (hbelow : Paired holds holds' (rel n') (s.1.1.chunks.map (·.mem)) u u')
    (hsame : AgreesOn (s.1.1.chunks.map (·.mem)) s.2.memory u.2.memory)
    (hsame' : AgreesOn (s.1.1.chunks.map (·.mem)) s'.2.memory u'.2.memory) :
    Both holds holds' rel n' es ((s.1.1, u.1), u.2) ((s'.1.1, u'.1), u'.2) :=
  ⟨h.own, hbelow, h.left.behind hsame, h.right.behind hsame'⟩

theorem perm (h : Both holds holds' rel n es s s') (hp : es.Perm rest) :
    Both holds holds' rel n rest s s' :=
  { h with left := h.left.perm hp, right := h.right.perm hp }

theorem report (hB : Kindred T B holds holds' rel) (h : Both holds holds' rel n es s s')
    (events : List Event) :
    Both holds holds' rel n es (s.1, s.2.report events) (s'.1, s'.2.report events) :=
  ⟨h.own, hB.report h.below events, h.left, h.right⟩

theorem low (hB : Kindred T B holds holds' rel) (h : Both holds holds' rel n es s s')
    (hc : chunk ∈ s.1.1.chunks) : T.may ∨ chunk.region.Low := by
  obtain ⟨hbuf, _, hsound, _⟩ := h.left.split (h.apart hB) hc
  refine (hB.low h.below).imp_right fun hlow => hsound.low ?_
  have hmem := hlow chunk.mem (List.mem_map_of_mem hc)
  rwa [← hbuf] at hmem

end Both

theorem Twin.both_uncons {block : Slice}
    (hp : Paired (Stacking.Holds (Kept holds)) (Stacking.Holds (Kept holds')) (Twin rel n)
      (block :: out) s s') :
    ∃ e es, e.block = block ∧ (es.map (·.block)).Perm out ∧
      Both holds holds' rel n (e :: es) s s' :=
  Stacking.entry_of_perm (fun hp h => h.perm hp) (Twin.both hp)

theorem Both.push {a : Arena} {u u' : β × Machine} {block : Slice} {region : Region}
    {memory memory' : Memory} (hB : Kindred T B holds holds' rel)
    (hbelow : Paired holds holds' (rel n) (chunk.mem :: older.map (·.mem)) u u')
    (hpiled : Piled u.2.memory older rest) (hpiled' : Piled u'.2.memory older rest')
    (hbuf : chunk.region.buffer = chunk.mem) (hsound : chunk.region.Sound u.2.memory top)
    (hsound' : chunk.region.Sound u'.2.memory top') (hsplit : (top ++ rest).Perm es)
    (hsplit' : (top' ++ rest').Perm es) (hs : 0 < size)
    (ha : chunk.region.alloc u.2.memory size align = .ok (some (block, region, memory)))
    (ha' : chunk.region.alloc u'.2.memory size align = .ok (some (block, region, memory')))
    (hsame : u'.2.memory = u.2.memory → memory' = memory) :
    Both holds holds' rel n (⟨block, chunk.region.used⟩ :: es)
      (({ a with chunks := { chunk with region } :: older }, u.1), u.2.mapMemory fun _ => memory)
      (({ a with chunks := { chunk with region } :: older }, u'.1),
        u'.2.mapMemory fun _ => memory') := by
  have hapart : Apart (chunk :: older) := hB.left.supply.apart hbelow.left
  obtain ⟨hnew, _, hw⟩ := hpiled.push hapart hbuf hsound hsplit hs ha
  obtain ⟨hnew', _, hw'⟩ := hpiled'.push hapart hbuf hsound' hsplit' hs ha'
  refine ⟨rfl, ?_, hnew, hnew'⟩
  refine hB.rewrite hbelow (hw.mem List.mem_cons_self) (hw'.mem List.mem_cons_self) fun hm => ?_
  obtain rfl : u' = u := hB.mirror hm hbelow.related
  rw [hsame rfl]

/-! ### Requests -/

/-- A block was put at the same place on a chunk in both runs, or in none. -/
inductive PushedBoth (chunk : Chunk) (size align : Nat) (s s' : (Arena × β) × Machine) :
    Option (Slice × Chunk) → (Arena × β) × Machine → (Arena × β) × Machine → Prop
  | none : PushedBoth chunk size align s s' none s s'
  | some {block region memory memory'} :
      chunk.region.alloc s.2.memory size align = .ok (.some (block, region, memory)) →
      chunk.region.alloc s'.2.memory size align = .ok (.some (block, region, memory')) →
      (s'.2.memory = s.2.memory → memory' = memory) →
      PushedBoth chunk size align s s' (.some (block, { chunk with region }))
        (s.1, s.2.mapMemory fun _ => memory) (s'.1, s'.2.mapMemory fun _ => memory')

theorem pushOn_bind {α : Type} {may : Prop}
    {post : α → (Arena × β) × Machine → (Arena × β) × Machine → Prop}
    {f : Option (Slice × Chunk) → Act (Arena × β) α} (hlow : may ∨ chunk.region.Low)
    (hpow : ∃ k, align = 2 ^ k) (hnone : Act.Alike may post (f none) (f none) s s')
    (hsome : ∀ block region memory memory',
      chunk.region.alloc s.2.memory size align = .ok (some (block, region, memory)) →
      chunk.region.alloc s'.2.memory size align = .ok (some (block, region, memory')) →
      (s'.2.memory = s.2.memory → memory' = memory) →
      Act.Alike may post (f (some (block, { chunk with region })))
        (f (some (block, { chunk with region }))) (s.1, s.2.mapMemory fun _ => memory)
        (s'.1, s'.2.mapMemory fun _ => memory')) :
    Act.Alike may post (pushOn chunk size align >>= f) (pushOn chunk size align >>= f) s s' := by
  have hpushed : Act.Alike may (PushedBoth chunk size align s s') (pushOn chunk size align)
      (pushOn chunk size align) s s' := by
    simp only [pushOn]
    refine .memory_bind (alloc_alike hlow hpow (.pure .none) ?_)
    intro block region memory memory' ha ha' hsame
    exact .changeMemory_bind (.pure (.some ha ha' hsame))
  refine .bind hpushed fun found t t' _ _ hpost => ?_
  cases hpost with
  | none => exact hnone
  | some ha ha' hsame => exact hsome _ _ _ _ ha ha' hsame

/-- The newest chunk has room in both runs or in none. -/
theorem pushOnCurrent_alike (hB : Kindred T B holds holds' rel)
    (h : Both holds holds' rel n es s s') (hs : 0 < size) (hpow : ∃ k, align = 2 ^ k) :
    Act.Alike T.may (fun found t t' => match found with
        | none => t = s ∧ t' = s'
        | some block => ∃ below, Both holds holds' rel n (⟨block, below⟩ :: es) t t')
      (pushOnCurrent size align) (pushOnCurrent size align) s s' := by
  simp only [pushOnCurrent]
  refine .own_bind h.own ?_
  cases hc : s.1.1.chunks with
  | nil => exact .pure ⟨rfl, rfl⟩
  | cons chunk older =>
    have hlow : T.may ∨ chunk.region.Low := h.low hB (by rw [hc]; exact List.mem_cons_self)
    refine pushOn_bind hlow hpow (.pure ⟨rfl, rfl⟩)
      fun block region memory memory' ha ha' hsame => ?_
    refine .setOwn_bind (.pure ⟨chunk.region.used, ?_⟩)
    have hbelow := h.below
    have hleft := h.left
    have hright := h.right
    rw [hc] at hbelow hleft hright
    cases hleft with
    | @cons _ _ top rest _ hbuf _ hsound hold hsplit =>
    cases hright with
    | @cons _ _ top' rest' _ _ _ hsound' hold' hsplit' =>
    exact .push hB hbelow hold hold' hbuf hsound hsound' hsplit hsplit' hs ha ha' hsame

/-- A chunk that is not yet one of the arena's, beside those that are. -/
structure Spare (holds holds' : List Slice → β × Machine → Prop)
    (rel : Nat → List Slice → β × Machine → β × Machine → Prop) (n : Nat) (es : List Entry)
    (chunk : Chunk) (s s' : (Arena × β) × Machine) : Prop where
  own : s'.1.1 = s.1.1
  region : chunk.region = .ofSlice chunk.mem
  below : Paired holds holds' (rel n) (chunk.mem :: s.1.1.chunks.map (·.mem)) (s.1.2, s.2)
    (s'.1.2, s'.2)
  left : Piled s.2.memory s.1.1.chunks es
  right : Piled s'.2.memory s.1.1.chunks es

/-- A chunk is acquired in both runs or in none. -/
theorem acquire_alike (hB : Kindred T B holds holds' rel)
    (h : Both holds holds' rel (n + 1) es s s') (hs : 0 < size) :
    Act.Alike T.may (fun found t t' => match found with
        | .error e => Both holds holds' rel n es t t' ∧ T.refusal e
        | .ok chunk => Spare holds holds' rel n es chunk t t')
      (acquire B size (2 ^ k)) (acquire B size (2 ^ k)) s s' := by
  simp only [acquire]
  refine .own_bind h.own (.lift_bind (.inr (chunkCapacity_returns _ _ _)) fun capacity hcap => ?_)
  cases capacity with
  | none => exact .pure ⟨h.fewer hB, T.exhausted _ _⟩
  | some capacity =>
    have hvalid := chunk_valid hs hcap
    refine .below_bind (hB.alloc_paired h.below (T.fair_of_valid hvalid)) ?_
    intro answer u u' hu hu' hpost
    have hsame := hB.left.custody.alloc h.below.left hu
    have hsame' := hB.right.custody.alloc h.below.right hu'
    cases answer with
    | error e => exact .pure ⟨h.behind hpost.1 hsame hsame', hpost.2 hvalid⟩
    | ok mem =>
      exact .emit_bind (.pure ⟨h.own, rfl, hB.report hpost _, h.left.behind hsame,
        h.right.behind hsame'⟩)

theorem release_alike {mems : List Slice} (hB : Kindred T B holds holds' rel)
    (hp : Paired holds holds' (rel n) (chunk.mem :: mems) (s.1.2, s.2) (s'.1.2, s'.2)) :
    Act.Alike T.may (fun _ t t' => ∃ u u', t = ((s.1.1, u.1), u.2) ∧ t' = ((s'.1.1, u'.1), u'.2) ∧
        Paired holds holds' (rel n) mems u u' ∧ AgreesOn mems s.2.memory u.2.memory ∧
        AgreesOn mems s'.2.memory u'.2.memory)
      (release B chunk) (release B chunk) s s' := by
  simp only [release]
  have hreported := hB.report hp [.chunkReleased chunk.mem.len chunk.mem.addr]
  refine .emit_bind (.below ((hB.free_paired hreported).imp ?_))
  intro _ u u' hu hu' hpost
  exact ⟨u, u', rfl, rfl, hpost, hB.left.custody.free hreported.left hu,
    hB.right.custody.free hreported.right hu'⟩

theorem serve_alike (hB : Kindred T B holds holds' rel)
    (h : Both holds holds' rel (n + 1) es s s') (hs : 0 < size) :
    Act.Alike T.may (fun r t t' => match r with
        | .ok block => ∃ below, Both holds holds' rel n (⟨block, below⟩ :: es) t t'
        | .error e => Both holds holds' rel n es t t' ∧ T.refusal e)
      (serve B size (2 ^ k)) (serve B size (2 ^ k)) s s' := by
  simp only [serve]
  refine .bind (pushOnCurrent_alike hB h hs ⟨k, rfl⟩) fun found t t' _ _ hpost => ?_
  cases found with
  | some block =>
    obtain ⟨below, hnew⟩ := hpost
    exact .emit_bind (.pure ⟨below, (hnew.fewer hB).report hB _⟩)
  | none =>
    obtain ⟨rfl, rfl⟩ := hpost
    refine .bind (acquire_alike hB h hs) fun found u u' hacq _ hpost => ?_
    cases found with
    | error e => exact .pure hpost
    | ok chunk =>
      refine .lift_ok_bind (demand_acquired hacq) ?_
      have hbounded := hB.left.supply.bounded hpost.below.left chunk.mem List.mem_cons_self
      have hempty : ∀ m : Memory, chunk.region.Sound m [] := fun m => by
        rw [hpost.region]
        exact sound_empty hbounded (Nat.zero_le _)
      have hlow : T.may ∨ chunk.region.Low := by
        refine (hB.low hpost.below).imp_right fun hlow => ?_
        have hmem := hlow chunk.mem List.mem_cons_self
        rw [hpost.region]
        exact ⟨hmem, Nat.zero_le _⟩
      have hbuf : chunk.region.buffer = chunk.mem := by rw [hpost.region]; rfl
      refine pushOn_bind hlow ⟨k, rfl⟩ ?_ fun block region memory memory' ha ha' hsame => ?_
      · refine .bind (release_alike hB hpost.below) ?_
        rintro _ _ _ _ _ ⟨v, v', rfl, rfl, hrest, hsame, hsame'⟩
        exact .pure ⟨⟨hpost.own, hrest, hpost.left.behind hsame, hpost.right.behind hsame'⟩,
          T.exhausted _ _⟩
      · refine .own_bind hpost.own (.setOwn_bind (.emit_bind (.pure ⟨chunk.region.used, ?_⟩)))
        exact .report hB (.push hB hpost.below hpost.left hpost.right hbuf (hempty _) (hempty _)
          (.refl es) (.refl es) hs ha ha' hsame) _

/-! ### Frees and resizes -/

/-- Taking a block off the newest chunk gives the same in both runs: its header says the same if it
lies there, and if it does not, nothing is read. -/
theorem Piled.freeTop_eq (h : Piled m (chunk :: older) (e :: es))
    (h' : Piled m' (chunk :: older) (e :: es)) (ha : Apart (chunk :: older)) :
    chunk.region.freeTop m e.block = chunk.region.freeTop m' e.block := by
  have hheader : ∀ {m}, Piled m (chunk :: older) (e :: es) →
      chunk.region.isTop e.block = .ok true →
      m.readWord (e.block.addr - headerSize) = e.below := by
    intro m h htop
    obtain ⟨hbuf, _, top, rest, _, ⟨hsound, _⟩ | ⟨_, hpiled⟩⟩ := h.locate
    · exact hsound.header e List.mem_cons_self
    · exact absurd (isTop_eq_true htop).1 (hpiled.not_owned ha hbuf)
  simp only [freeTop]
  cases htop : chunk.region.isTop e.block with
  | error fault => simp only [bind, Except.bind]
  | ok owned =>
    cases owned with
    | false => simp only [bind, Except.bind, Bool.not_false, if_true]
    | true => simp only [bind, Except.bind, hheader h htop, hheader h' htop]

/-- A block is given back alike, and with it a chunk or none. -/
theorem free_alike (hB : Kindred T B holds holds' rel)
    (h : Both holds holds' rel n (e :: es) s s') :
    Act.Alike T.may (fun _ => Both holds holds' rel n es) (Arena.free B e.block)
      (Arena.free B e.block) s s' := by
  have hlower := h.left.lower List.mem_cons_self
  have hnull : e.block.isNull = false := Slice.isNull_eq_false.2 fun h0 => by
    rw [h0] at hlower
    exact absurd hlower (by decide)
  simp only [Arena.free, hnull, Bool.false_eq_true, if_false]
  refine .own_bind h.own ?_
  have hleft := h.left
  have hright := h.right
  have hbelow := h.below
  cases hc : s.1.1.chunks with
  | nil =>
    rw [hc] at hleft
    cases hleft
  | cons chunk older =>
    have hlow : T.may ∨ chunk.region.Low := h.low hB (by rw [hc]; exact List.mem_cons_self)
    have hapart := h.apart hB
    rw [hc] at hleft hright hbelow hapart
    refine .memory_bind ?_
    rw [← hleft.freeTop_eq hright hapart]
    refine .lift_bind (hlow.imp_right fun hlow => ?_) fun found hfree => ?_
    · exact ⟨_, freeTop_returns hlow.addressable (hleft.bounded List.mem_cons_self)⟩
    have hfree' := hfree
    rw [hleft.freeTop_eq hright hapart] at hfree'
    cases found with
    | none => exact .emit (.report hB ⟨h.own, h.below, h.left.forget, h.right.forget⟩ _)
    | some region =>
      refine .emit_bind ?_
      by_cases hlast : region.used = 0 ∧ older ≠ []
      · simp only [if_pos hlast]
        refine .setOwn_bind ((release_alike hB (hB.report hbelow _)).imp ?_)
        rintro _ _ _ _ _ ⟨u, u', rfl, rfl, hrest, hsame, hsame'⟩
        exact ⟨rfl, hrest, ((hleft.pop hapart hfree).1 hlast.1).behind hsame,
          ((hright.pop hapart hfree').1 hlast.1).behind hsame'⟩
      · simp only [if_neg hlast]
        have hused : older ≠ [] → region.used ≠ 0 := fun hne hzero => hlast ⟨hzero, hne⟩
        exact .setOwn ⟨rfl, hB.report hbelow _, (hleft.pop hapart hfree).2 hused,
          (hright.pop hapart hfree').2 hused⟩

theorem resizeIn_returns (hlow : ∀ c ∈ chunks, c.region.Low) (hm : mem.Bounded) (size k : Nat) :
    ∃ found, resizeIn mem size (2 ^ k) chunks = .ok found := by
  induction chunks with
  | nil => exact ⟨_, rfl⟩
  | cons chunk older ih =>
    have hfirst := hlow chunk List.mem_cons_self
    obtain ⟨resized, hres⟩ := hfirst.resizeInPlace_returns hm size k
    obtain ⟨rest, hrest⟩ := ih fun c hc => hlow c (List.mem_cons_of_mem _ hc)
    simp only [resizeIn, owns_returns hfirst.addressable hm, bind, Except.bind]
    split
    · rw [hres]
      cases resized <;> exact ⟨_, rfl⟩
    · rw [hrest]
      cases rest <;> exact ⟨_, rfl⟩

theorem kindred (hB : Kindred T B holds holds' rel) :
    Kindred T.open (allocator B) (Stacking.Holds (Kept holds)) (Stacking.Holds (Kept holds'))
      (Twin rel) where
  left := (stacking hB.left.supply hB.left.custody).contract.keeper
  right := (stacking hB.right.supply hB.right.custody).contract.keeper
  fewer h := { h with toAtop := h.toAtop.fewer hB }
  perm hp h := by
    obtain ⟨es, hes, hl, hr⟩ := h.piled
    exact { h with piled := ⟨es, hes.trans hp, hl, hr⟩ }
  mirror hm h := h.toAtop.mirror hB hm
  write {n out s s' w w'} hp hw hw' hmirror := by
    obtain ⟨es, hperm, h⟩ := Twin.both hp
    have hk : Kept holds es s := ⟨h.below.left, h.left⟩
    have hk' : Kept holds' es ((s.1.1, s'.1.2), s'.2) := ⟨h.below.right, h.right⟩
    have hin : ∀ block ∈ out, ∃ o ∈ es.map (·.block), block.Inside o :=
      fun block hb => ⟨block, hperm.mem_iff.2 hb, .refl _⟩
    have hheaders : ∀ {m m' : Memory}, WrittenIn out m m' →
        AgreesOn (es.map Entry.header) m m' := fun hw =>
      agreesOn_headers (fun _ he => h.left.lower he) (h.left.apart (h.apart hB)) (hw.inside hin)
    exact ⟨⟨h.own, hB.write h.below (hk.writtenIn (hw.inside hin)) (hk'.writtenIn (hw'.inside hin))
      hmirror⟩, es, hperm, h.left.memory (hheaders hw), h.right.memory (hheaders hw')⟩
  low {n out s s'} hp := by
    obtain ⟨es, hperm, h⟩ := Twin.both hp
    refine (hB.low h.below).imp_right fun hlow block hb => ?_
    obtain ⟨e, he, rfl⟩ := List.mem_map.1 (hperm.mem_iff.2 hb)
    obtain ⟨c, hc, hin⟩ := h.left.inside he
    have htop := hlow c.mem (List.mem_map_of_mem hc)
    have hblock := (Entry.block_inside (h.left.lower he)).trans hin
    simp only [Slice.Inside] at hblock
    omega
  alloc {n out s s' size align} hp _ := by
    obtain ⟨es, hperm, h⟩ := Twin.both hp
    refine .allocBy ((h.fewer hB).twin hperm) fun k hs => ?_
    refine (serve_alike hB h hs).imp fun r t t' _ _ hpost => ?_
    cases r with
    | ok block =>
      obtain ⟨below, hnew⟩ := hpost
      exact hnew.twin (hperm.cons block)
    | error e => exact ⟨hpost.1.twin hperm, fun _ => hpost.2⟩
  free {n out s s' block} hp := by
    obtain ⟨e, es, rfl, hperm, h⟩ := Twin.both_uncons hp
    exact (free_alike hB h).imp fun _ _ _ _ _ hpost => hpost.twin hperm
  free_null {n out s s' block} hp hn := by
    change Act.Alike T.may _ (Arena.free B block) (Arena.free B block) s s'
    simp only [Arena.free, hn, if_true]
    exact .pure hp.related

/-- An arena is its own twin if the allocator behind it answers its requests alike. -/
theorem twins (hB : Kindred T B holds holds' rel) :
    Twins T.open (allocator B) (Stacking.Holds (Kept holds)) (Stacking.Holds (Kept holds'))
      (Twin rel) := by
  have hresize : (allocator B).resize =
      resizeBy (allocator B).alloc (allocator B).free (adjust B) := rfl
  have hleft := stacking hB.left.supply hB.left.custody
  have hright := stacking hB.right.supply hB.right.custody
  refine (kindred hB).twins (hleft.contract.service hleft.orderly)
    (hright.contract.service hright.orderly) hresize fun {n out s s' old size k} hp hn hs => ?_
  have hmoved := (kindred hB).relocate hp (validRequest_two_pow hs k)
  obtain ⟨e, es, rfl, hperm, h⟩ := Twin.both_uncons hp
  simp only [adjust]
  refine .own_bind h.own (.lift_bind ?_ fun found hres => ?_)
  · have hbounded := h.left.bounded List.mem_cons_self
    by_cases hmay : T.may
    · exact .inl hmay
    · exact .inr (resizeIn_returns (fun c hc => (h.low hB hc).resolve_left hmay) hbounded size k)
  cases found with
  | none => exact hmoved
  | some chunks =>
    refine .setOwn_bind (.emit_bind (.pure ?_))
    have hapart := h.apart hB
    have hbelow := (h.fewer hB).below
    rw [← resizeIn_mem hres] at hbelow
    have hboth : Both holds holds' rel n (⟨⟨e.block.addr, size⟩, e.below⟩ :: es)
        (({ s.1.1 with chunks }, s.1.2), s.2) (({ s.1.1 with chunks }, s'.1.2), s'.2) :=
      ⟨rfl, hbelow, (h.left.regrow hapart hs ⟨k, rfl⟩ hres).2,
        (h.right.regrow hapart hs ⟨k, rfl⟩ hres).2⟩
    exact (hboth.report hB _).twin (hperm.cons _)

/-! ### Sweeps -/

theorem releaseAll_alike {mems : List Slice} (hB : Kindred T B holds holds' rel)
    (hp : Paired holds holds' (rel n) (chunks.map (·.mem) ++ mems) (s.1.2, s.2) (s'.1.2, s'.2)) :
    Act.Alike T.may (fun _ t t' => t.1.1 = s.1.1 ∧ t'.1.1 = s'.1.1 ∧
        Paired holds holds' (rel n) mems (t.1.2, t.2) (t'.1.2, t'.2))
      (releaseAll B chunks) (releaseAll B chunks) s s' := by
  induction chunks generalizing s s' with
  | nil => exact .pure ⟨rfl, rfl, hp⟩
  | cons chunk chunks ih =>
    refine .bind (release_alike hB hp) ?_
    rintro _ _ _ _ _ ⟨u, u', rfl, rfl, hrest, _, _⟩
    exact ih hrest

theorem releaseAll_twin {a : Arena} (hB : Kindred T B holds holds' rel) (hown : s.1.1 = a)
    (hown' : s'.1.1 = a)
    (hp : Paired holds holds' (rel n) (chunks.map (·.mem) ++ a.chunks.map (·.mem)) (s.1.2, s.2)
      (s'.1.2, s'.2)) (hempty : ∀ m, Piled m a.chunks []) :
    Act.Alike T.may (fun _ => Twin rel n []) (releaseAll B chunks) (releaseAll B chunks) s s' := by
  refine (releaseAll_alike hB hp).imp ?_
  rintro _ ⟨⟨l, b⟩, m⟩ ⟨⟨l', b'⟩, m'⟩ _ _ ⟨hl, hl', hrest⟩
  obtain rfl : l = a := hl.trans hown
  obtain rfl : l' = l := hl'.trans hown'
  exact ⟨⟨rfl, hrest.related⟩, [], .nil, hempty _, hempty _⟩

theorem reset_alike (hB : Kindred T B holds holds' rel)
    (hp : Paired (Stacking.Holds (Kept holds)) (Stacking.Holds (Kept holds')) (Twin rel n) out s
      s') :
    Act.Alike T.may (fun _ => Twin rel n []) (reset B) (reset B) s s' := by
  obtain ⟨es, hperm, h⟩ := Twin.both hp
  simp only [reset]
  refine .own_bind h.own ?_
  cases hlast : s.1.1.chunks.getLast? with
  | none =>
    have hnil := List.getLast?_eq_none_iff.1 hlast
    refine .pure ⟨⟨h.own, h.below.related⟩, [], .nil, ?_, ?_⟩ <;> rw [hnil] <;> exact .nil
  | some oldest =>
    obtain ⟨newer, hs⟩ := List.getLast?_eq_some_iff.1 hlast
    have hbelow := h.below
    obtain ⟨hbuf, _, hsound, _⟩ := h.left.split (h.apart hB) (List.mem_of_getLast? hlast)
    rw [hs, List.map_append] at hbelow
    rw [hs, List.dropLast_concat]
    refine .setOwn_bind (releaseAll_twin hB rfl rfl hbelow fun m => ?_)
    exact .cons hbuf (fun hne => absurd rfl hne) (sound_empty hsound.bounded (Nat.zero_le _)) .nil
      .nil

/-- Destroying an arena gives back all chunks in both runs. -/
theorem destroy_alike (hB : Kindred T B holds holds' rel)
    (hp : Paired (Stacking.Holds (Kept holds)) (Stacking.Holds (Kept holds')) (Twin rel n) out s
      s') :
    Act.Alike T.may (fun _ => Twin rel n []) (destroy B) (destroy B) s s' := by
  obtain ⟨es, hperm, h⟩ := Twin.both hp
  have hbelow := h.below
  rw [← List.append_nil (List.map _ _)] at hbelow
  simp only [destroy]
  refine .own_bind h.own (.setOwn_bind ?_)
  by_cases hany : s.1.1.chunks ≠ []
  · rw [if_pos hany]
    exact .emit_bind (releaseAll_twin hB rfl rfl (hB.report hbelow _) fun _ => .nil)
  · rw [if_neg hany]
    exact releaseAll_twin hB rfl rfl hbelow fun _ => .nil

end AllocChain.Arena
