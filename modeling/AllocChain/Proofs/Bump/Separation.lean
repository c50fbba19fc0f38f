import AllocChain.Proofs.Bump.Arena
import AllocChain.Proofs.Bump.Fixed
import AllocChain.Proofs.Lease

/-!
What a disciplined client sees of an allocator of bump regions, in every state that it can reach
(`Separated`). Blocks and headers lie apart, each block in the used part of one region; its header
still says how much of that region was used before the block was made, and no block further down
reaches beyond that. This holds for the fixed allocator over any buffer, and for an arena over any
allocator with disjoint blocks, however short or badly aligned they are.
-/

namespace AllocChain

open Region Memory

variable {β γ : Type}

/-- The block lies in the used part of the region, with room for its header. -/
def Region.Covers (r : Region) (block : Slice) : Prop :=
  r.base + headerSize ≤ block.addr ∧ block.addr + block.len ≤ r.base + r.used

/-- The block of a lease, and how much was used where it lies before it was made. -/
def Lease.entry (regions : γ → List Region) (lease : Lease γ) : Entry :=
  ⟨lease.block, usedAt (regions lease.born.1) lease.block.addr⟩

theorem Lease.map_entry_block (regions : γ → List Region) (live : List (Lease γ)) :
    (live.map (·.entry regions)).map (·.block) = live.map (·.block) := by
  rw [List.map_map]
  rfl

/-- The leases of a client and the regions that their blocks lie in, the newest region first. -/
structure Separated (regions : γ → List Region) (live : List (Lease γ)) (s : γ × Machine) :
    Prop where
  within : ∀ r ∈ regions s.1, r.used ≤ r.capacity
  home : ∀ lease ∈ live, ∃! i : Nat, ∃ r, (regions s.1)[i]? = some r ∧ r.Covers lease.block
  answers : ∀ lease ∈ live, 0 < lease.size ∧ lease.block.len = lease.size ∧
    normalizeAlign lease.align ∣ lease.block.addr
  apart : live.Pairwise fun l l' => (l.entry regions).extent.Disjoint (l'.entry regions).extent
  header : ∀ lease ∈ live,
    s.2.memory.readWord (lease.block.addr - headerSize) = (lease.entry regions).below
  above : ∀ r ∈ regions s.1, ∀ lease ∈ live, ∀ lease' ∈ live, r.Covers lease.block →
    r.Covers lease'.block → lease'.block.addr < lease.block.addr →
    lease'.block.addr + lease'.block.len ≤ r.base + (lease.entry regions).below
  busy : ∀ r ∈ (regions s.1).dropLast, 0 < r.used

/-- The entries of the leases are kept, and each block is what was asked for. -/
structure Tenants (regions : γ → List Region) (kept : List Entry → γ × Machine → Prop)
    (live : List (Lease γ)) (s : γ × Machine) : Prop where
  kept : kept (live.map (·.entry regions)) s
  answers : ∀ lease ∈ live, lease.block.len = lease.size ∧
    normalizeAlign lease.align ∣ lease.block.addr

theorem distinct_of_apart {regions : γ → List Region} {live : List (Lease γ)}
    (hpos : ∀ e ∈ live.map (Lease.entry regions), 0 < e.block.len)
    (hlow : ∀ e ∈ live.map (Lease.entry regions), headerSize ≤ e.block.addr)
    (h : (live.map (Lease.entry regions)).Pairwise fun e e' => e.extent.Disjoint e'.extent) :
    Distinct live := by
  refine List.pairwise_map.2 ((List.pairwise_map.1 h).imp_of_mem fun {l l'} hl hl' hd heq => ?_)
  have he : l.entry regions ∈ live.map (Lease.entry regions) := List.mem_map_of_mem hl
  have he' : l'.entry regions ∈ live.map (Lease.entry regions) := List.mem_map_of_mem hl'
  have hin := (Entry.block_inside (hlow _ he)).has (Slice.has_addr (hpos _ he))
  have hin' := (Entry.block_inside (hlow _ he')).has (Slice.has_addr (hpos _ he'))
  refine hd _ hin ?_
  change (l'.entry regions).extent.Has l.block.addr
  rw [heq]
  exact hin'

/-- The tenants of stacked regions survive all that a disciplined client can do. -/
theorem Stacking.tenancy {A : Allocator γ} {adjust : Slice → Nat → Nat → Act γ Answer}
    {regions : γ → List Region} {kept : List Entry → γ × Machine → Prop}
    (h : Stacking A adjust regions kept) : Tenancy A (Tenants regions kept) where
  perm hp hi := ⟨h.perm (hp.map _) hi.kept, fun lease hl => hi.answers lease (hp.mem_iff.2 hl)⟩
  distinct hi := distinct_of_apart (h.nonempty hi.kept) (h.lower hi.kept) (h.apart hi.kept)
  alloc := by
    rintro live s size align block t hi ha
    obtain ⟨hlen, hdvd, hkept, _⟩ := h.alloc hi.kept ha
    refine ⟨hkept, ?_⟩
    rintro lease (_ | ⟨_, hl⟩)
    · exact ⟨hlen, hdvd⟩
    · exact hi.answers lease hl
  alloc_refused hi ha := ⟨(h.alloc_refused hi.kept ha).1, hi.answers⟩
  zero := by
    rintro live s s' block size align hi
    have hfill : WrittenIn [block] s.2.memory (s.2.memory.write block.addr block.len fun _ => 0) :=
      writtenIn_write _ _ _ _
    refine ⟨h.write hi.kept (hfill.mem List.mem_cons_self), ?_⟩
    obtain ⟨hfirst, hothers⟩ := List.forall_mem_cons.1 hi.answers
    exact List.forall_mem_cons.2 ⟨hfirst, hothers⟩
  resize := by
    rintro lease live s size align block t hi _ hs hr
    obtain ⟨hlen, hdvd, hkept⟩ := h.resize hi.kept hs hr
    refine ⟨?_, ?_⟩
    · have hentry : (lease.renew s block size align).entry regions = ⟨block,
          if block.addr = lease.block.addr then (lease.entry regions).below
          else usedAt (regions s.1) block.addr⟩ := by
        simp only [Lease.entry, Lease.renew]
        by_cases heq : block.addr = lease.block.addr <;> simp [heq]
      rw [List.map_cons, hentry]
      exact hkept
    · rintro l (_ | ⟨_, hl⟩)
      · exact ⟨hlen, hdvd⟩
      · exact hi.answers l (List.mem_cons_of_mem _ hl)
  resize_refused hi _ hs hr := ⟨h.resize_refused hi.kept hs hr, hi.answers⟩
  free hi hf := ⟨(h.free hi.kept hf).1, fun l hl => hi.answers l (List.mem_cons_of_mem _ hl)⟩
  free_null hi hn hf := by
    rw [h.free_null hn hf]
    exact hi
  store := by
    rintro live s addr byte hi hw
    have hsame : (live.map (·.store addr byte)).map (Lease.entry regions) =
        live.map (Lease.entry regions) := by
      rw [List.map_map]
      rfl
    refine ⟨?_, ?_⟩
    · rw [hsame]
      refine h.write hi.kept ?_
      rw [Lease.map_entry_block]
      exact hw.writtenIn s.2.memory fun _ => byte
    · intro l hl
      obtain ⟨l', hl', rfl⟩ := List.mem_map.1 hl
      exact hi.answers l' hl'

/-- Regions that lie apart, only the oldest of which may be unused, and where the entries lie. -/
structure Placed (regions : List Region) (m : Memory) (es : List Entry) : Prop where
  apart : (regions.map (·.buffer)).Pairwise Slice.Disjoint
  busy : ∀ r ∈ regions.dropLast, 0 < r.used
  home : ∀ e ∈ es, ∃ r ∈ regions, r.buffer.Has e.block.addr
  sound : ∀ r ∈ regions, ∃ top, r.Sound m top ∧ ∀ e ∈ es, r.buffer.Has e.block.addr → e ∈ top

theorem Region.Covers.has {r : Region} {block : Slice} (h : r.Covers block) (hpos : 0 < block.len)
    (hused : r.used ≤ r.capacity) : r.buffer.Has block.addr := by
  simp only [Covers] at h
  simp only [buffer, Slice.Has]
  omega

namespace Placed

variable {regions : List Region} {m : Memory} {es : List Entry} {e e' : Entry} {r : Region}

theorem within (h : Placed regions m es) (hr : r ∈ regions) : r.used ≤ r.capacity := by
  obtain ⟨_, hsound, _⟩ := h.sound r hr
  exact hsound.used_le

theorem covers (h : Placed regions m es) (hr : r ∈ regions) (he : e ∈ es)
    (hhas : r.buffer.Has e.block.addr) : r.Covers e.block := by
  obtain ⟨top, hsound, htop⟩ := h.sound r hr
  have h1 := hsound.lower e (htop e he hhas)
  have h2 := hsound.upper e (htop e he hhas)
  exact ⟨by omega, h2⟩

theorem header (h : Placed regions m es) (he : e ∈ es) :
    m.readWord (e.block.addr - headerSize) = e.below := by
  obtain ⟨r, hr, hhas⟩ := h.home e he
  obtain ⟨top, hsound, htop⟩ := h.sound r hr
  exact hsound.header e (htop e he hhas)

theorem index_unique (h : Placed regions m es) {i j : Nat} {r' : Region} {a : Nat}
    (hi : regions[i]? = some r) (hj : regions[j]? = some r') (ha : r.buffer.Has a)
    (ha' : r'.buffer.Has a) : j = i := by
  by_contra hne
  have hdisj : ∀ {a b : Nat} {x y : Region}, a < b → regions[a]? = some x →
      regions[b]? = some y → x.buffer.Disjoint y.buffer := by
    intro a b x y hlt ha hb
    obtain ⟨hla, rfl⟩ := List.getElem?_eq_some_iff.1 ha
    obtain ⟨hlb, rfl⟩ := List.getElem?_eq_some_iff.1 hb
    have := List.pairwise_iff_getElem.1 h.apart a b (by simpa using hla) (by simpa using hlb) hlt
    simpa using this
  rcases Nat.lt_or_gt_of_ne hne with hlt | hgt
  · exact hdisj hlt hj hi _ ha' ha
  · exact hdisj hgt hi hj _ ha ha'

theorem existsUnique_covers (h : Placed regions m es) (he : e ∈ es) (hpos : 0 < e.block.len) :
    ∃! i : Nat, ∃ r, regions[i]? = some r ∧ r.Covers e.block := by
  obtain ⟨r, hr, hhas⟩ := h.home e he
  obtain ⟨i, hi⟩ := List.mem_iff_getElem?.1 hr
  refine ⟨i, ⟨r, hi, h.covers hr he hhas⟩, ?_⟩
  rintro j ⟨r', hj, hcov⟩
  exact h.index_unique hi hj hhas (hcov.has hpos (h.within (List.mem_of_getElem? hj)))

theorem above (h : Placed regions m es) (hr : r ∈ regions) (he : e ∈ es) (he' : e' ∈ es)
    (hpos : 0 < e.block.len) (hpos' : 0 < e'.block.len) (hcov : r.Covers e.block)
    (hcov' : r.Covers e'.block) (hlt : e'.block.addr < e.block.addr) :
    e'.block.addr + e'.block.len ≤ r.base + e.below := by
  obtain ⟨top, hsound, htop⟩ := h.sound r hr
  exact hsound.above e (htop e he (hcov.has hpos (h.within hr))) e'
    (htop e' he' (hcov'.has hpos' (h.within hr))) hlt

end Placed

/-- Tenants of regions in which the entries are placed are separated. -/
theorem Tenants.separated {A : Allocator γ} {adjust : Slice → Nat → Nat → Act γ Answer}
    {regions : γ → List Region} {kept : List Entry → γ × Machine → Prop}
    {live : List (Lease γ)} {s : γ × Machine} (h : Stacking A adjust regions kept)
    (hplaced : Placed (regions s.1) s.2.memory (live.map (·.entry regions)))
    (hi : Tenants regions kept live s) : Separated regions live s := by
  have hmem : ∀ {lease : Lease γ}, lease ∈ live →
      lease.entry regions ∈ live.map (·.entry regions) := fun hl => List.mem_map_of_mem hl
  have hpos : ∀ lease ∈ live, 0 < lease.block.len := fun lease hl =>
    h.nonempty hi.kept (lease.entry regions) (hmem hl)
  constructor
  · exact fun r hr => hplaced.within hr
  · intro lease hl
    exact hplaced.existsUnique_covers (hmem hl) (hpos lease hl)
  · intro lease hl
    obtain ⟨hlen, hdvd⟩ := hi.answers lease hl
    rw [← hlen]
    exact ⟨hpos lease hl, rfl, hdvd⟩
  · have hapart := h.apart hi.kept
    rw [List.pairwise_map] at hapart
    exact hapart
  · intro lease hl
    have hheader := hplaced.header (hmem hl)
    exact hheader
  · intro r hr lease hl lease' hl' hcov hcov' hlt
    exact hplaced.above hr (hmem hl) (hmem hl') (hpos lease hl) (hpos lease' hl') hcov hcov' hlt
  · exact hplaced.busy

theorem Fixed.Kept.placed {es : List Entry} {s : Region × Machine} (h : Fixed.Kept es s) :
    Placed [s.1] s.2.memory es where
  apart := List.pairwise_singleton _ _
  busy := by simp
  home e he := by
    refine ⟨s.1, List.mem_singleton_self _, ?_⟩
    have hlow : headerSize ≤ e.block.addr := by
      have := Sound.lower h e he
      omega
    exact Arena.has_addr_of_inside (Sound.nonempty h e he) hlow (Sound.extent_inside h he)
  sound r hr := by
    rw [List.mem_singleton.1 hr]
    exact ⟨es, h, fun _ he _ => he⟩

theorem Arena.Kept.placed {B : Allocator β} {fit : Nat → Nat → Slice → Prop}
    {holds : List Slice → β × Machine → Prop} {es : List Entry} {s : (Arena × β) × Machine}
    (hB : Supply B fit holds) (h : Arena.Kept holds es s) :
    Placed (s.1.1.chunks.map (·.region)) s.2.memory es := by
  have hapart := h.apart hB
  have hbuf : (s.1.1.chunks.map (·.region)).map (·.buffer) = s.1.1.chunks.map (·.mem) := by
    rw [List.map_map]
    exact List.map_congr_left fun c hc => (h.piled.split hapart hc).1
  refine ⟨hbuf ▸ hapart, ?_, ?_, ?_⟩
  · rw [← List.map_dropLast]
    intro r hr
    obtain ⟨c, hc, rfl⟩ := List.mem_map.1 hr
    exact h.piled.busy hc
  · intro e he
    obtain ⟨c, hc, hin⟩ := h.piled.inside he
    refine ⟨c.region, List.mem_map_of_mem hc, ?_⟩
    rw [(h.piled.split hapart hc).1]
    exact Arena.has_addr_of_inside (h.piled.nonempty he) (h.piled.lower he) hin
  · intro r hr
    obtain ⟨c, hc, rfl⟩ := List.mem_map.1 hr
    obtain ⟨hsame, top, hsound, htop⟩ := h.piled.split hapart hc
    rw [hsame]
    exact ⟨top, hsound, htop⟩

theorem Fixed.tenants_of_run {base capacity : Nat} {m : Machine} {live : List (Lease Region)}
    {s : Region × Machine} (hbound : base + capacity < wordLimit)
    (hrun : Run Fixed.allocator [Fixed.reset] Disciplined (⟨base, capacity, 0⟩, m) live s) :
    Tenants (fun r => [r]) Fixed.Kept live s := by
  have hstart : Tenants (fun r => [r]) Fixed.Kept [] ((⟨base, capacity, 0⟩ : Region), m) :=
    ⟨sound_empty hbound (Nat.zero_le _), by simp⟩
  refine Fixed.stacking.tenancy.run Fixed.stacking.orderly ?_ hstart hrun
  intro x hx live s t hi hsweep
  rw [List.mem_singleton.1 hx] at hsweep
  exact ⟨Fixed.reset_kept hi.kept hsweep, by simp⟩

theorem Arena.tenants_of_run {B : Allocator β} {fit : Nat → Nat → Slice → Prop}
    {holds : List Slice → β × Machine → Prop} {chunkSize : Nat} {b : β} {m : Machine}
    {live : List (Lease (Arena × β))} {s : (Arena × β) × Machine} (hB : Supply B fit holds)
    (hC : Custody B holds) (hback : holds [] (b, m))
    (hrun : Run (Arena.allocator B) [Arena.reset B, Arena.destroy B] Disciplined
      ((Arena.new chunkSize, b), m) live s) :
    Tenants (fun l => l.1.chunks.map (·.region)) (Arena.Kept holds) live s := by
  have hstack := Arena.stacking hB hC
  have hstart : Tenants (fun l => l.1.chunks.map (·.region)) (Arena.Kept holds) []
      ((Arena.new chunkSize, b), m) := ⟨.new chunkSize hback, by simp⟩
  refine hstack.tenancy.run hstack.orderly ?_ hstart hrun
  intro x hx live s t hi hsweep
  refine ⟨?_, by simp⟩
  rcases List.mem_pair.1 hx with rfl | rfl
  · exact hi.kept.reset hB hsweep
  · exact hi.kept.destroy hB hsweep

/-- A disciplined client of a fixed allocator, or of an arena over disjoint blocks of any length and
alignment, has separated blocks in every state that it can reach. -/
theorem separated_of_disciplined :
    (∀ {base capacity : Nat} {m : Machine} {live : List (Lease Region)} {s : Region × Machine},
      base + capacity < wordLimit →
      Run Fixed.allocator [Fixed.reset] Disciplined (⟨base, capacity, 0⟩, m) live s →
      Separated (fun r => [r]) live s) ∧
    ∀ {β : Type} {B : Allocator β} {holds : List Slice → β × Machine → Prop} {chunkSize : Nat}
      {b : β} {m : Machine} {live : List (Lease (Arena × β))} {s : (Arena × β) × Machine},
      Supply B Slice.Any holds → Custody B holds → holds [] (b, m) →
      Run (Arena.allocator B) [Arena.reset B, Arena.destroy B] Disciplined
        ((Arena.new chunkSize, b), m) live s →
      Separated (fun l => l.1.chunks.map (·.region)) live s := by
  constructor
  · intro base capacity m live s hbound hrun
    have hi := Fixed.tenants_of_run hbound hrun
    exact hi.separated Fixed.stacking hi.kept.placed
  · intro β B holds chunkSize b m live s hB hC hback hrun
    have hi := Arena.tenants_of_run hB hC hback hrun
    exact hi.separated (Arena.stacking hB hC) (hi.kept.placed hB)

/-- A buffer in which a buried block shrinks and is then freed, and an arena of two chunks over a
fixed allocator, one of which goes back. -/
theorem separated_of_two_clients :
    (∃ live s,
      Run Fixed.allocator [Fixed.reset] Disciplined (⟨64, 256, 0⟩, ⟨.zero, [], []⟩) live s ∧
      live.map (·.block) = [⟨96, 24⟩] ∧ Separated (fun r => [r]) live s) ∧
    ∃ live s, Run (Arena.allocator Fixed.allocator)
        [Arena.reset Fixed.allocator, Arena.destroy Fixed.allocator] Disciplined
        ((Arena.new 64, ⟨64, 1024, 0⟩), ⟨.zero, [], []⟩) live s ∧
      live.map (·.block) = [⟨80, 5⟩] ∧
      Separated (fun l : Arena × Region => l.1.chunks.map (·.region)) live s := by
  have hfixed : (Fixed.allocator.play Disciplined
      [.alloc 10 8, .alloc 24 16, .resize ⟨72, 10⟩ 5 8, .write 115 7, .free ⟨72, 5⟩] []
      (⟨64, 256, 0⟩, ⟨.zero, [], []⟩)).map (·.1.map (·.block)) = some [⟨96, 24⟩] := by
    decide +kernel
  have harena : ((Arena.allocator Fixed.allocator).play Disciplined
      [.alloc 40 8, .alloc 40 8, .resize ⟨80, 40⟩ 5 8, .write 84 7, .free ⟨152, 40⟩] []
      ((Arena.new 64, ⟨64, 1024, 0⟩), ⟨.zero, [], []⟩)).map (·.1.map (·.block)) =
        some [⟨80, 5⟩] := by
    decide +kernel
  obtain ⟨⟨live, s⟩, hplay, hlive⟩ := Option.map_eq_some_iff.1 hfixed
  obtain ⟨⟨live', s'⟩, hplay', hlive'⟩ := Option.map_eq_some_iff.1 harena
  have hrun : Run Fixed.allocator [Fixed.reset] Disciplined _ live s := Run.start.play hplay
  have hrun' : Run (Arena.allocator Fixed.allocator)
      [Arena.reset Fixed.allocator, Arena.destroy Fixed.allocator] Disciplined _ live' s' :=
    Run.start.play hplay'
  have hsupply : Supply Fixed.allocator Slice.Any (Stacking.Holds Fixed.Kept) :=
    Fixed.stacking.contract.supply.mono fun _ _ _ _ => trivial
  exact ⟨⟨live, s, hrun, hlive, separated_of_disciplined.1 (by decide) hrun⟩,
    ⟨live', s', hrun', hlive', separated_of_disciplined.2 hsupply Fixed.stacking.contract.custody
      (Fixed.holds_nil (by decide)) hrun'⟩⟩

end AllocChain
