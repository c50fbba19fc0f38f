import AllocChain.Proofs.Bump.Heap

/-!
Blocks that shrink under others. The header of a block says how much was used when the block was
made, so that is what is used again once it is gone, whatever has become of the block below in the
meantime. If that one has lost some of its end, it no longer ends where the used part does: nothing
that is done later makes it the top block again, and neither it nor what lies below is taken back
when it is freed (`Overlaid`, `rewound_of_overlaid`). A block that loses its end while it is the
top block of its region takes the end of the used part along, and is found there when everything
after it is gone.
-/

namespace AllocChain

open Memory Region

variable {γ : Type}

/-- The states that a client can reach from `start`, where it had the blocks `out`, once another
block was handed out to it. That one and those that came after it are on the stack, the newest
first, and are taken back in this order; any block may be resized, as long as it is not moved, and
the older ones that are `held` may also be freed in any order. So one of these may be moved, which
is a request, a copy and a free. Something is `lost` when a block of the stack has shrunk while it
was buried. -/
inductive Overlaid (A : Allocator γ) (regions : γ → List Region) (out : List Slice)
    (start : γ × Machine) : Bool → List Slice → List Slice → γ × Machine → Prop
  | start {size align block s} : A.alloc size align start = .ok (.ok block, s) →
      Overlaid A regions out start false [block] out s
  | alloc {lost stack held s size align block t} : Overlaid A regions out start lost stack held s →
      A.alloc size align s = .ok (.ok block, t) →
      Overlaid A regions out start lost (block :: stack) held t
  | alloc_refused {lost stack held s size align e t} :
      Overlaid A regions out start lost stack held s → A.alloc size align s = .ok (.error e, t) →
      Overlaid A regions out start lost stack held t
  | free {lost top next stack held s t} :
      Overlaid A regions out start lost (top :: next :: stack) held s →
      A.free top s = .ok ((), t) → Overlaid A regions out start lost (next :: stack) held t
  | resize {lost newer old older held s size align block t} :
      Overlaid A regions out start lost (newer ++ old :: older) held s →
      A.resize old size align s = .ok (.ok block, t) → block.addr = old.addr →
      Overlaid A regions out start (lost || decide (size < old.len ∧ Buried (regions s.1) old))
        (newer ++ block :: older) held t
  | resize_held {lost stack newer old older s size align block t} :
      Overlaid A regions out start lost stack (newer ++ old :: older) s →
      A.resize old size align s = .ok (.ok block, t) → block.addr = old.addr →
      Overlaid A regions out start lost stack (newer ++ block :: older) t
  | resize_refused {lost stack held s old size align e t} :
      Overlaid A regions out start lost stack held s → old ∈ stack ++ held →
      A.resize old size align s = .ok (.error e, t) →
      Overlaid A regions out start lost stack held t
  | free_held {lost stack newer old older s t} :
      Overlaid A regions out start lost stack (newer ++ old :: older) s →
      A.free old s = .ok ((), t) → Overlaid A regions out start lost stack (newer ++ older) t
  | write {lost stack held s f} : Overlaid A regions out start lost stack held s →
      WrittenIn (stack ++ held) s.2.memory (f s.2.memory) →
      Overlaid A regions out start lost stack held (s.1, s.2.mapMemory f)

theorem cons_cases_of_append {α : Type} {newer older upper lower : List α} {x : α}
    (h : newer ++ x :: older = upper ++ lower) :
    (∃ mid, upper = newer ++ x :: mid ∧ older = mid ++ lower) ∨
      ∃ mid, newer = upper ++ mid ∧ lower = mid ++ x :: older := by
  rcases List.append_eq_append_iff.1 h with ⟨mid, hupper, hmid⟩ | ⟨mid, hnewer, hlower⟩
  · cases mid with
    | nil => exact .inr ⟨[], by simp [hupper], hmid.symm⟩
    | cons y mid =>
      obtain ⟨rfl, hrest⟩ := List.cons.inj hmid
      exact .inl ⟨mid, hupper, hrest⟩
  · exact .inr ⟨mid, hnewer, hlower⟩

/-- The oldest entry says how much was used of the regions where its block lies. -/
def Rooted (first : List Region) (stack : List Entry) : Prop :=
  ∀ e ∈ stack.getLast?, e.below = usedAt first e.block.addr

/-- The stack of an overlaid client, which began with the regions `first`: as long as nothing is
lost all of it is on the heap, and then only what came later. -/
inductive Overlay (regions : γ → List Region) (kept : List Entry → γ × Machine → Prop)
    (inv : γ × Machine → Prop) (first : List Region) :
    Bool → List Entry → List Entry → γ × Machine → Prop
  | whole {base stack old s} : Heap regions kept inv base stack old s → stack ≠ [] →
      Rooted first stack → Overlay regions kept inv first false stack old s
  | sunk {base newer lower old s} : Heap regions kept inv base newer (lower ++ old) s →
      lower ≠ [] → Sunk base (lower ++ old) →
      Overlay regions kept inv first true (newer ++ lower) old s

variable {A : Allocator γ} {adjust : Slice → Nat → Nat → Act γ Answer} {regions : γ → List Region}
  {kept : List Entry → γ × Machine → Prop} {allowed : Breakdown → Prop}
  {put : γ → Nat → Region → γ} {inv : γ × Machine → Prop} {s t : γ × Machine} {e x : Entry}
  {es old newer older : List Entry} {base : List Region} {size align : Nat} {block : Slice}

theorem Rooted.replace {first : List Region} (h : Rooted first (newer ++ x :: older))
    (haddr : block.addr = x.block.addr) : Rooted first (newer ++ ⟨block, x.below⟩ :: older) := by
  intro e he
  unfold Rooted at h
  rw [List.getLast?_append_of_ne_nil _ (List.cons_ne_nil _ _)] at h he
  cases older with
  | nil =>
    obtain rfl : ⟨block, x.below⟩ = e := Option.some.inj he
    simp only [haddr]
    exact h x rfl
  | cons y older =>
    rw [List.getLast?_cons_cons] at h he
    exact h e he

namespace Overlay

variable {first : List Region} {lost : Bool} {stack : List Entry}

/-- All blocks are accounted for. -/
theorem facts (h : Overlay regions kept inv first lost stack old s) :
    kept (stack ++ old) s ∧ inv s := by
  cases h with
  | whole h _ _ => exact ⟨h.kept, h.inv⟩
  | sunk h _ _ => exact ⟨List.append_assoc _ _ _ ▸ h.kept, h.inv⟩

theorem mono (h : Overlay regions kept inv first lost stack old s) (hk : kept (stack ++ old) t)
    (hi : inv t) (hr : regions t.1 = regions s.1) :
    Overlay regions kept inv first lost stack old t := by
  cases h with
  | whole h hne hroot => exact .whole (h.mono hk hi hr) hne hroot
  | sunk h hne hsunk => exact .sunk (h.mono (List.append_assoc _ _ _ ▸ hk) hi hr) hne hsunk

theorem initial (hA : Rewinding A adjust regions kept allowed put inv) (hk : kept old s)
    (hi : inv s) (ha : A.alloc size align s = .ok (.ok block, t)) :
    Overlay regions kept inv (regions s.1) false
      [⟨block, usedAt (regions s.1) block.addr⟩] old t := by
  obtain ⟨_, _, hkept, _⟩ := hA.unwinding.stacking.alloc hk ha
  obtain ⟨r, rest, ht, hheads⟩ := hA.unwinding.heads hA.settling.placed hk ha
  have hheaped : Heaped (rewind (usedAt (regions s.1) block.addr) (r :: rest)) old
      [⟨block, usedAt (regions s.1) block.addr⟩] (r :: rest) := .cons hheads .nil
  refine .whole ⟨hkept, hA.steady.alloc hi ha, ht ▸ hheaped⟩ (List.cons_ne_nil _ _) ?_
  rintro e ⟨⟩
  rfl

theorem alloc (hA : Rewinding A adjust regions kept allowed put inv)
    (h : Overlay regions kept inv first lost stack old s)
    (ha : A.alloc size align s = .ok (.ok block, t)) :
    Overlay regions kept inv first lost
      (⟨block, usedAt (regions s.1) block.addr⟩ :: stack) old t := by
  cases h with
  | whole h hne hroot =>
    refine .whole (h.alloc hA (h.heaped.ne_nil (.inl hne)) ha) (List.cons_ne_nil _ _) ?_
    rw [Rooted, List.getLast?_cons_of_ne_nil hne]
    exact hroot
  | sunk h hne hsunk => exact .sunk (h.alloc hA (h.heaped.ne_nil (.inr hsunk)) ha) hne hsunk

/-- The newest block goes: it is on the heap, or is ignored. -/
theorem free (hA : Rewinding A adjust regions kept allowed put inv)
    (h : Overlay regions kept inv first lost (x :: stack) old s) (hne : stack ≠ [])
    (hf : A.free x.block s = .ok ((), t)) : Overlay regions kept inv first lost stack old t := by
  generalize hstack : x :: stack = entries at h
  cases h with
  | whole h _ hroot =>
    subst hstack
    rw [Rooted, List.getLast?_cons_of_ne_nil hne] at hroot
    exact .whole (h.free hA hf) hne hroot
  | @sunk base newer lower _ _ h _ hsunk =>
    cases newer with
    | nil =>
      obtain rfl : x :: stack = lower := hstack
      have hoff : Heap regions kept inv base [] ([] ++ x :: (stack ++ old)) s := h
      have hback : Heap regions kept inv base [] ([] ++ (stack ++ old)) t :=
        hoff.free_held hA (.inr hsunk) hf
      have hend : Overlay regions kept inv first true ([] ++ stack) old t :=
        .sunk hback hne (hsunk.shorten (.of_subset (List.subset_cons_self _ _)))
      exact hend
    | cons e newer =>
      obtain ⟨rfl, rfl⟩ := List.cons.inj hstack
      exact .sunk (h.free hA hf) ‹_› hsunk

theorem resize (hA : Rewinding A adjust regions kept allowed put inv)
    (h : Overlay regions kept inv first lost (newer ++ x :: older) old s)
    (ha : A.resize x.block size align s = .ok (.ok block, t)) (haddr : block.addr = x.block.addr) :
    Overlay regions kept inv first
      (lost || decide (size < x.block.len ∧ Buried (regions s.1) x.block))
      (newer ++ ⟨block, x.below⟩ :: older) old t := by
  generalize hstack : newer ++ x :: older = entries at h
  cases h with
  | whole h _ hroot =>
    subst hstack
    rcases h.resize hA ha haddr with ⟨hstays, h'⟩ | ⟨hlost, base, h', hsunk⟩
    · rw [decide_eq_false hstays]
      exact .whole h' (by simp) (hroot.replace haddr)
    · rw [decide_eq_true hlost]
      exact .sunk h' (List.cons_ne_nil _ _) hsunk
  | @sunk base upper lower _ _ h hne hsunk =>
    rw [Bool.true_or]
    rcases cons_cases_of_append hstack with ⟨mid, rfl, rfl⟩ | ⟨mid, rfl, rfl⟩
    · rcases h.resize hA ha haddr with ⟨_, h'⟩ | ⟨_, base, h', hsunk'⟩
      · have hback : Overlay regions kept inv first true
            ((newer ++ ⟨block, x.below⟩ :: mid) ++ lower) old t := .sunk h' hne hsunk
        rwa [List.append_assoc] at hback
      · rw [← List.append_assoc] at h' hsunk'
        exact .sunk h' (List.cons_ne_nil _ _) hsunk'
    · rw [List.append_assoc] at h hsunk
      obtain ⟨base', h', hsunk'⟩ := h.resize_held hA ha haddr
      have hassoc : mid ++ (⟨block, x.below⟩ :: older ++ old) =
          (mid ++ ⟨block, x.below⟩ :: older) ++ old := (List.append_assoc _ _ _).symm
      rw [List.append_assoc]
      exact .sunk (hassoc ▸ h') (by simp) (hassoc ▸ hsunk' hsunk)

theorem free_held (hA : Rewinding A adjust regions kept allowed put inv)
    (h : Overlay regions kept inv first lost stack (newer ++ x :: older) s)
    (hf : A.free x.block s = .ok ((), t)) :
    Overlay regions kept inv first lost stack (newer ++ older) t := by
  cases h with
  | whole h hne hroot => exact .whole (h.free_held hA (.inl hne) hf) hne hroot
  | @sunk base upper lower _ _ h hne hsunk =>
    rw [← List.append_assoc] at h hsunk
    have hback := h.free_held hA (.inr hsunk) hf
    have hsub := ((List.sublist_cons_self x older).append_left (lower ++ newer)).subset
    replace hsunk := hsunk.shorten (.of_subset hsub)
    rw [List.append_assoc] at hback hsunk
    exact .sunk hback hne hsunk

theorem resize_held (hA : Rewinding A adjust regions kept allowed put inv)
    (h : Overlay regions kept inv first lost stack (newer ++ x :: older) s)
    (ha : A.resize x.block size align s = .ok (.ok block, t)) (haddr : block.addr = x.block.addr) :
    Overlay regions kept inv first lost stack (newer ++ ⟨block, x.below⟩ :: older) t := by
  cases h with
  | whole h hne hroot =>
    obtain ⟨base', h', _⟩ := h.resize_held hA ha haddr
    exact .whole h' hne hroot
  | @sunk base upper lower _ _ h hne hsunk =>
    rw [← List.append_assoc] at h hsunk
    obtain ⟨base', h', hsunk'⟩ := h.resize_held hA ha haddr
    replace hsunk' := hsunk' hsunk
    rw [List.append_assoc] at h' hsunk'
    exact .sunk h' hne hsunk'

theorem resize_refused (hA : Rewinding A adjust regions kept allowed put inv)
    (h : Overlay regions kept inv first lost stack old s) (hx : x ∈ stack ++ old)
    {err : AllocError} (ha : A.resize x.block size align s = .ok (.error err, t)) :
    Overlay regions kept inv first lost stack old t := by
  have hstack := hA.unwinding.stacking
  obtain ⟨hk, hi⟩ := h.facts
  obtain ⟨before, after, hsplit⟩ := List.append_of_mem hx
  rw [hsplit] at hk
  obtain ⟨hkept, hsame⟩ := hA.unwinding.resize_refused (hstack.perm List.perm_middle hk) ha
  refine h.mono ?_ (hA.steady.resize hi ha) hsame
  rw [hsplit]
  exact hstack.perm List.perm_middle.symm hkept

/-- If something is lost, the oldest block of the stack is ignored when it is freed. -/
theorem ignores (hA : Rewinding A adjust regions kept allowed put inv)
    (h : Overlay regions kept inv first true stack old s) :
    ∀ e ∈ stack.getLast?, Ignores A e.block s := by
  cases h with
  | sunk h hne hsunk =>
    intro e he
    rw [List.getLast?_append_of_ne_nil _ hne] at he
    exact h.ignores hA (.inr hsunk) (List.mem_append_left _ (List.mem_of_getLast? he))

/-- Otherwise, once it is the only one, it heads the newest region. -/
theorem heads (h : Overlay regions kept inv first false [x] old s) :
    (∃ r rest, regions s.1 = r :: rest ∧ r.Heads x old) ∧
      x.below = usedAt first x.block.addr := by
  cases h with
  | whole h _ hroot =>
    obtain ⟨r, rest, hs, hheads, _⟩ := h.heaped.uncons
    exact ⟨⟨r, rest, hs, hheads⟩, hroot x rfl⟩

end Overlay

variable {start : γ × Machine} {lost : Bool} {stack held : List Slice} {mem : Slice}

theorem Rewinding.overlay (hA : Rewinding A adjust regions kept allowed put inv)
    (hstart : kept old start) (hi : inv start)
    (h : Overlaid A regions (old.map (·.block)) start lost stack held s) :
    ∃ es es', stack = es.map (·.block) ∧ held = es'.map (·.block) ∧
      Overlay regions kept inv (regions start.1) lost es es' s := by
  have hstack := hA.unwinding.stacking
  induction h with
  | start ha => exact ⟨_, old, rfl, rfl, .initial hA hstart hi ha⟩
  | alloc _ ha ih =>
    obtain ⟨es, es', rfl, hheld, ho⟩ := ih
    exact ⟨_, es', rfl, hheld, ho.alloc hA ha⟩
  | alloc_refused _ ha ih =>
    obtain ⟨es, es', hes, hheld, ho⟩ := ih
    obtain ⟨hk, hinv⟩ := ho.facts
    exact ⟨es, es', hes, hheld, ho.mono (hstack.alloc_refused hk ha).1
      (hA.steady.alloc hinv ha) (hA.unwinding.put_refused hk ha)⟩
  | free _ hf ih =>
    obtain ⟨es, es', hes, hheld, ho⟩ := ih
    obtain ⟨e, es, rfl, rfl, hrest⟩ := List.map_eq_cons_iff.1 hes.symm
    refine ⟨es, es', hrest.symm, hheld, ho.free hA ?_ hf⟩
    rintro rfl
    cases hrest
  | resize _ ha haddr ih =>
    obtain ⟨es, es', hes, hheld, ho⟩ := ih
    obtain ⟨newer, rest, rfl, rfl, hrest⟩ := List.map_eq_append_iff.1 hes.symm
    obtain ⟨x, older, rfl, rfl, rfl⟩ := List.map_eq_cons_iff.1 hrest
    exact ⟨_, es', by simp, hheld, ho.resize hA ha haddr⟩
  | resize_held _ ha haddr ih =>
    obtain ⟨es, es', hes, hheld, ho⟩ := ih
    obtain ⟨newer, rest, rfl, rfl, hrest⟩ := List.map_eq_append_iff.1 hheld.symm
    obtain ⟨x, older, rfl, rfl, rfl⟩ := List.map_eq_cons_iff.1 hrest
    exact ⟨es, _, hes, by simp, ho.resize_held hA ha haddr⟩
  | resize_refused _ hmem ha ih =>
    obtain ⟨es, es', rfl, rfl, ho⟩ := ih
    rw [← List.map_append] at hmem
    obtain ⟨x, hx, rfl⟩ := List.mem_map.1 hmem
    exact ⟨es, es', rfl, rfl, ho.resize_refused hA hx ha⟩
  | free_held _ hf ih =>
    obtain ⟨es, es', hes, hheld, ho⟩ := ih
    obtain ⟨newer, rest, rfl, rfl, hrest⟩ := List.map_eq_append_iff.1 hheld.symm
    obtain ⟨x, older, rfl, rfl, rfl⟩ := List.map_eq_cons_iff.1 hrest
    exact ⟨es, _, hes, by simp, ho.free_held hA hf⟩
  | write _ hw ih =>
    obtain ⟨es, es', rfl, rfl, ho⟩ := ih
    obtain ⟨hk, hinv⟩ := ho.facts
    rw [← List.map_append] at hw
    exact ⟨es, es', rfl, rfl, ho.mono (hstack.write hk hw) (hA.steady.machine hinv) rfl⟩

/-- Once something is lost, the oldest block of the stack is ignored when it is freed. -/
theorem Rewinding.ignores_lost (hA : Rewinding A adjust regions kept allowed put inv)
    (hstart : kept old start) (hi : inv start)
    (h : Overlaid A regions (old.map (·.block)) start true (stack ++ [mem]) held s) :
    Ignores A mem s := by
  obtain ⟨es, es', hes, _, ho⟩ := hA.overlay hstart hi h
  have hlast := congrArg List.getLast? hes
  rw [List.getLast?_concat, List.getLast?_map] at hlast
  obtain ⟨e, he, rfl⟩ := Option.map_eq_some_iff.1 hlast.symm
  exact ho.ignores hA e he

/-- Otherwise, once it is the only one, it heads the newest region, with as much below it as was
used before it was made. -/
theorem Rewinding.heads_whole (hA : Rewinding A adjust regions kept allowed put inv)
    (hstart : kept old start) (hi : inv start)
    (h : Overlaid A regions (old.map (·.block)) start false [mem] held s) :
    ∃ e es r rest, e.block = mem ∧ kept (e :: es) s ∧ inv s ∧ regions s.1 = r :: rest ∧
      r.Heads e es ∧ e.below = usedAt (regions start.1) mem.addr := by
  obtain ⟨es, es', hes, _, ho⟩ := hA.overlay hstart hi h
  obtain ⟨e, rfl, rfl⟩ := List.map_eq_singleton_iff.1 hes.symm
  obtain ⟨⟨r, rest, hs, hheads⟩, hbelow⟩ := ho.heads
  exact ⟨e, es', r, rest, rfl, ho.facts.1, ho.facts.2, hs, hheads, hbelow⟩

/-- A client that holds some blocks of a fixed allocator or of an arena asks for another one, and
goes on to ask for more, which it takes back in the reverse order. Once they are gone the block can
be taken back, too, unless the allocator behind breaks off, and as much is used as before it was
made; but if it or one of the others has been shrunk by then where it was buried, it is ignored. -/
theorem rewound_of_overlaid {m : Machine} {mem : Slice} {held : List Slice} :
    (∀ {base capacity : Nat} {live : List (Lease Region)} {s s' : Region × Machine},
      base + capacity < wordLimit →
      Run Fixed.allocator [Fixed.reset] Disciplined (⟨base, capacity, 0⟩, m) live s →
      (∀ {stack}, Overlaid Fixed.allocator (fun r => [r]) (live.map (·.block)) s
        true (stack ++ [mem]) held s' → Ignores Fixed.allocator mem s') ∧
      (Overlaid Fixed.allocator (fun r => [r]) (live.map (·.block)) s false [mem] held s' →
        ∃ t, Fixed.free mem s' = .ok ((), t) ∧ t.1 = s.1)) ∧
    ∀ {β : Type} {B : Allocator β} {holds : List Slice → β × Machine → Prop} {chunkSize : Nat}
      {b : β} {live : List (Lease (Arena × β))} {s s' : (Arena × β) × Machine},
      Supply B Slice.Any holds → Custody B holds → holds [] (b, m) →
      Run (Arena.allocator B) [Arena.reset B, Arena.destroy B] Disciplined
        ((Arena.new chunkSize, b), m) live s →
      (∀ {stack}, Overlaid (Arena.allocator B) (fun l => l.1.chunks.map (·.region))
        (live.map (·.block)) s true (stack ++ [mem]) held s' →
        Ignores (Arena.allocator B) mem s') ∧
      (Overlaid (Arena.allocator B) (fun l => l.1.chunks.map (·.region)) (live.map (·.block)) s
        false [mem] held s' →
        (Arena.free B mem).BreaksOnly (B.Breaks fun _ => True) s' ∧
        ∀ t, Arena.free B mem s' = .ok ((), t) → t.1.1.chunks.map (·.region) =
          rewind (usedAt (s.1.1.chunks.map (·.region)) mem.addr)
            (s'.1.1.chunks.map (·.region))) := by
  constructor
  · intro base capacity live s s' hbound hrun
    have hk := (Fixed.tenants_of_run hbound hrun).kept
    have hA := Fixed.rewinding s.1.buffer
    rw [← Lease.map_entry_block fun r => [r]]
    refine ⟨fun ho => hA.ignores_lost hk rfl ho, fun ho => ?_⟩
    obtain ⟨e, es, r, rest, rfl, hkept, hbuffer, hs, hheads, hbelow⟩ := hA.heads_whole hk rfl ho
    obtain ⟨_, t, hf⟩ := (Fixed.unwinding.pop_breaksOnly hkept hs hheads.tops).returns
    refine ⟨t, hf, ?_⟩
    -- the buffer is the same as at the start, and the block lies in it
    obtain ⟨rfl, rfl⟩ := List.cons.inj hs
    have hhas : s'.1.buffer.Has e.block.addr :=
      hheads.tops.covers.has (Fixed.stacking.nonempty hkept e List.mem_cons_self) hheads.within
    have hpop := Fixed.unwinding.pop hkept rfl hheads.tops hf
    rw [rewind_only, hbelow, usedAt_cons (hbuffer ▸ hhas)] at hpop
    obtain ⟨hregion, _⟩ := List.cons.inj hpop
    obtain ⟨hbase, hcapacity⟩ := Slice.mk.inj hbuffer
    rw [hregion, hbase, hcapacity]
  · intro β B holds chunkSize b live s s' hB hC hback hrun
    have hk := (Arena.tenants_of_run hB hC hback hrun).kept
    have hroom := Arena.roomy_of_run hrun
    have hA := Arena.rewinding hB hC
    rw [← Lease.map_entry_block fun l => l.1.chunks.map (·.region)]
    refine ⟨fun ho => hA.ignores_lost hk hroom ho, fun ho => ?_⟩
    obtain ⟨e, es, r, rest, rfl, hkept, _, hs, hheads, hbelow⟩ := hA.heads_whole hk hroom ho
    refine ⟨hA.unwinding.pop_breaksOnly hkept hs hheads.tops, fun t hf => ?_⟩
    rw [← hbelow]
    exact hA.unwinding.pop hkept hs hheads.tops hf

/-- A client of a buffer shrinks a block while there is another one on top of it, and a client of an
arena does so while the other one is in a newer chunk. -/
theorem rewound_of_two_clients :
    (∃ live s s', Run Fixed.allocator [Fixed.reset] Disciplined
        (⟨64, 256, 0⟩, ⟨.zero, [], []⟩) live s ∧
      Overlaid Fixed.allocator (fun r => [r]) (live.map (·.block)) s true [⟨96, 16⟩] [⟨72, 10⟩] s' ∧
      s.1 = ⟨64, 256, 18⟩ ∧ s'.1 = ⟨64, 256, 64⟩ ∧ Ignores Fixed.allocator ⟨96, 16⟩ s') ∧
    ∃ s' t, Overlaid (Arena.allocator Fixed.allocator) (fun l => l.1.chunks.map (·.region)) []
        ((Arena.new 64, ⟨64, 1024, 0⟩), ⟨.zero, [], []⟩) false [⟨80, 24⟩] [] s' ∧
      Arena.free Fixed.allocator ⟨80, 24⟩ s' = .ok ((), t) ∧
      t.1.1.chunks.map (·.region) = [⟨72, 64, 0⟩] := by
  have hfixed : ((Fixed.allocator.play Disciplined [.alloc 10 8] []
      (⟨64, 256, 0⟩, ⟨.zero, [], []⟩)).bind fun r =>
        (Fixed.allocator.alloc 32 8 r.2).toOption.bind fun a =>
          (Fixed.allocator.alloc 32 8 a.2).toOption.bind fun b =>
            (Fixed.allocator.resize ⟨96, 32⟩ 16 8 b.2).toOption.bind fun c =>
              (Fixed.allocator.free ⟨136, 32⟩ c.2).toOption.map fun d =>
                (r.1.map (·.block), [a.1, b.1, c.1], r.2.1, b.2.1, d.2.1)) =
        some ([⟨72, 10⟩], [.ok ⟨96, 32⟩, .ok ⟨136, 32⟩, .ok ⟨96, 16⟩],
          ⟨64, 256, 18⟩, ⟨64, 256, 104⟩, ⟨64, 256, 64⟩) := by
    decide +kernel
  have harena : (((Arena.allocator Fixed.allocator).alloc 40 8
      ((Arena.new 64, ⟨64, 1024, 0⟩), ⟨.zero, [], []⟩)).toOption.bind fun a =>
        ((Arena.allocator Fixed.allocator).alloc 40 8 a.2).toOption.bind fun b =>
          ((Arena.allocator Fixed.allocator).resize ⟨80, 40⟩ 24 8 b.2).toOption.bind fun c =>
            ((Arena.allocator Fixed.allocator).free ⟨152, 40⟩ c.2).toOption.bind fun d =>
              ((Arena.allocator Fixed.allocator).free ⟨80, 24⟩ d.2).toOption.map fun t =>
                ([a.1, b.1, c.1], b.2.1.1.chunks.map (·.region),
                  d.2.1.1.chunks.map (·.region), t.1)) =
        some ([.ok ⟨80, 40⟩, .ok ⟨152, 40⟩, .ok ⟨80, 24⟩], [⟨144, 64, 48⟩, ⟨72, 64, 48⟩],
          [⟨72, 64, 32⟩], ()) := by
    decide +kernel
  constructor
  · obtain ⟨⟨live, s⟩, hplay, hrest⟩ := Option.bind_eq_some_iff.1 hfixed
    obtain ⟨⟨_, s₁⟩, ha, hrest⟩ := Option.bind_eq_some_iff.1 hrest
    obtain ⟨⟨_, s₂⟩, hb, hrest⟩ := Option.bind_eq_some_iff.1 hrest
    obtain ⟨⟨_, s₃⟩, hc, hrest⟩ := Option.bind_eq_some_iff.1 hrest
    obtain ⟨⟨_, s'⟩, hd, hends⟩ := Option.map_eq_some_iff.1 hrest
    simp only [Prod.mk.injEq, List.cons.injEq] at hends
    obtain ⟨hlive, ⟨rfl, rfl, rfl, _⟩, hbefore, hregion, hafter⟩ := hends
    have hrun : Run Fixed.allocator [Fixed.reset] Disciplined _ live s := Run.start.play hplay
    have hover : Overlaid Fixed.allocator (fun r => [r]) (live.map (·.block)) s false
        ([⟨136, 32⟩] ++ ⟨96, 32⟩ :: []) (live.map (·.block)) s₂ :=
      (Overlaid.start (Act.ok_of_toOption ha)).alloc (Act.ok_of_toOption hb)
    have hshort := (hover.resize (Act.ok_of_toOption hc) rfl).free (Act.ok_of_toOption hd)
    rw [hregion] at hshort
    have hsunk : Overlaid Fixed.allocator (fun r => [r]) (live.map (·.block)) s true
        ([] ++ [⟨96, 16⟩]) (live.map (·.block)) s' := hshort
    have hlost := (rewound_of_overlaid.1 (by decide) hrun).1 hsunk
    exact ⟨live, s, s', hrun, hlive ▸ hsunk, hbefore, hafter, hlost⟩
  · obtain ⟨⟨_, s₁⟩, ha, hrest⟩ := Option.bind_eq_some_iff.1 harena
    obtain ⟨⟨_, s₂⟩, hb, hrest⟩ := Option.bind_eq_some_iff.1 hrest
    obtain ⟨⟨_, s₃⟩, hc, hrest⟩ := Option.bind_eq_some_iff.1 hrest
    obtain ⟨⟨_, s'⟩, hd, hrest⟩ := Option.bind_eq_some_iff.1 hrest
    obtain ⟨⟨_, t⟩, hf, hends⟩ := Option.map_eq_some_iff.1 hrest
    simp only [Prod.mk.injEq, List.cons.injEq] at hends
    obtain ⟨⟨rfl, rfl, rfl, _⟩, hregions, hregions', _⟩ := hends
    have hover : Overlaid (Arena.allocator Fixed.allocator) (fun l => l.1.chunks.map (·.region)) []
        ((Arena.new 64, ⟨64, 1024, 0⟩), ⟨.zero, [], []⟩) false ([⟨152, 40⟩] ++ ⟨80, 40⟩ :: []) []
        s₂ :=
      (Overlaid.start (Act.ok_of_toOption ha)).alloc (Act.ok_of_toOption hb)
    have hshort := (hover.resize (Act.ok_of_toOption hc) rfl).free (Act.ok_of_toOption hd)
    rw [hregions] at hshort
    have hsupply : Supply Fixed.allocator Slice.Any (Stacking.Holds Fixed.Kept) :=
      Fixed.stacking.contract.supply.mono fun _ _ _ _ => trivial
    have hback := (rewound_of_overlaid.2 hsupply Fixed.stacking.contract.custody
      (Fixed.holds_nil (by decide)) .start).2 hshort
    have hrewound := hback.2 t (Act.ok_of_toOption hf)
    refine ⟨s', t, hshort, Act.ok_of_toOption hf, hrewound.trans ?_⟩
    rw [hregions']
    decide

/-- A block of a buffer that has been shrunk under another one stays there for good: when all blocks
have been freed in the reverse order, 40 bytes are still used. -/
theorem stranded_by_shrinking : ∃ live s t,
    Fixed.allocator.play Disciplined
      [.alloc 32 8, .alloc 32 8, .resize ⟨72, 32⟩ 16 8, .free ⟨112, 32⟩] []
      (⟨64, 256, 0⟩, ⟨.zero, [], []⟩) = some (live, s) ∧
    live.map (·.block) = [⟨72, 16⟩] ∧
    Fixed.free ⟨72, 16⟩ s = .ok ((), t) ∧ t.1 = ⟨64, 256, 40⟩ := by
  have hdeeds : ((Fixed.allocator.play Disciplined
      [.alloc 32 8, .alloc 32 8, .resize ⟨72, 32⟩ 16 8, .free ⟨112, 32⟩] []
      (⟨64, 256, 0⟩, ⟨.zero, [], []⟩)).bind fun r => (Fixed.free ⟨72, 16⟩ r.2).toOption.map
        fun t => (r.1.map (·.block), t.2.1)) = some ([⟨72, 16⟩], ⟨64, 256, 40⟩) := by
    decide +kernel
  obtain ⟨⟨live, s⟩, hplay, hrest⟩ := Option.bind_eq_some_iff.1 hdeeds
  obtain ⟨⟨_, t⟩, hf, hends⟩ := Option.map_eq_some_iff.1 hrest
  obtain ⟨hlive, hregion⟩ := Prod.mk.inj hends
  exact ⟨live, s, t, hplay, hlive, Act.ok_of_toOption hf, hregion⟩

end AllocChain
