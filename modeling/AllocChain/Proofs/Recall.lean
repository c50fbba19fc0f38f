import AllocChain.Proofs.Bump.Arena
import AllocChain.Proofs.Bump.Fixed
import AllocChain.Proofs.Bump.Slab
import AllocChain.Proofs.Classes.Custody
import AllocChain.Proofs.Lease

/-!
The blocks of a disciplined client are arrays of bytes that nobody else changes. What the client
knows of a block is what it has stored there last, what it was told when the block was made, and
what a resize has carried over; under the interface contract memory holds exactly these bytes after
every run (`Contract.tenancy`). All four allocators meet the contract.
-/

namespace AllocChain

open Memory Lease

variable {β γ : Type}

/-- Memory holds the bytes that are known of the block. -/
def Lease.Recalls (lease : Lease γ) (m : Memory) : Prop :=
  ∀ i v, i < lease.block.len → lease.known i = some v → m.byte (lease.block.addr + i) = v

namespace Lease.Recalls

variable {lease : Lease γ} {block : Slice} {m m' : Memory}

/-- A block whose bytes stay is still known. -/
theorem agreesOn (h : lease.Recalls m) {blocks : List Slice} (ha : AgreesOn blocks m m')
    (hb : lease.block ∈ blocks) : lease.Recalls m' := by
  intro i v hi hv
  rw [ha lease.block hb _ (Slice.has_add hi)]
  exact h i v hi hv

theorem fresh (s : γ × Machine) (block : Slice) (size align : Nat) (m : Memory) :
    (Lease.fresh s block size align none).Recalls m := by
  rintro i v _ ⟨⟩

theorem zero (s : γ × Machine) (block : Slice) (size align : Nat) (m : Memory) :
    (Lease.fresh s block size align (some 0)).Recalls
      (m.write block.addr block.len fun _ => 0) := by
  intro i v hi hv
  cases hv
  exact if_pos ⟨Nat.le_add_right _ _, Nat.add_lt_add_left hi _⟩

/-- A resized block is known as far as both have room. -/
theorem renew (h : lease.Recalls m) (hc : Carried lease.block block m m') (s : γ × Machine)
    (size align : Nat) : (lease.renew s block size align).Recalls m' := by
  intro i v hi hv
  change (if i < lease.block.len ∧ i < block.len then lease.known i else none) = some v at hv
  by_cases hboth : i < lease.block.len ∧ i < block.len
  · rw [if_pos hboth] at hv
    exact (hc i hboth.1 hboth.2).trans (h i v hboth.1 hv)
  · rw [if_neg hboth] at hv
    cases hv

theorem store (h : lease.Recalls m) (addr : Nat) (byte : UInt8) :
    (lease.store addr byte).Recalls (m.write addr 1 fun _ => byte) := by
  intro i v hi hv
  change (if lease.block.addr + i = addr then some byte else lease.known i) = some v at hv
  change (m.write addr 1 fun _ => byte).byte (lease.block.addr + i) = v
  rw [byte_write]
  by_cases hhere : lease.block.addr + i = addr
  · rw [if_pos hhere, Option.some.injEq] at hv
    rw [if_pos (by omega), hv]
  · rw [if_neg hhere] at hv
    rw [if_neg (by omega)]
    exact h i v hi hv

end Lease.Recalls

/-- The blocks of the leases are outstanding, and memory holds what is known of them. -/
structure Recalled (holds : List Slice → γ × Machine → Prop) (live : List (Lease γ))
    (s : γ × Machine) : Prop where
  held : holds (live.map (·.block)) s
  nonempty : ∀ lease ∈ live, 0 < lease.block.len
  recalls : ∀ lease ∈ live, lease.Recalls s.2.memory

namespace Contract

variable {A : Allocator γ} {holds : List Slice → γ × Machine → Prop} {live : List (Lease γ)}
  {lease : Lease γ} {s t : γ × Machine}

theorem recalls_agreesOn (hi : Recalled holds live s) {m : Memory}
    (ha : AgreesOn (live.map (·.block)) s.2.memory m) : ∀ lease ∈ live, lease.Recalls m :=
  fun lease hl => (hi.recalls lease hl).agreesOn ha (List.mem_map_of_mem hl)

/-- What a client knows survives all that a disciplined client can do. -/
theorem tenancy (h : Contract A holds) (hA : Orderly A) : Tenancy A (Recalled holds) where
  perm hp hi := ⟨h.supply.perm (hp.map _) hi.held,
    fun lease hl => hi.nonempty lease (hp.mem_iff.2 hl),
    fun lease hl => hi.recalls lease (hp.mem_iff.2 hl)⟩
  distinct {live s} hi := by
    refine List.pairwise_map.2 ((List.pairwise_map.1 (h.supply.apart hi.held)).imp_of_mem ?_)
    intro l l' hl hl' hd heq
    refine hd l.block.addr (Slice.has_addr (hi.nonempty l hl)) ?_
    rw [heq]
    exact Slice.has_addr (hi.nonempty l' hl')
  alloc := by
    rintro live s size align block t hi ha
    obtain ⟨⟨⟨hlen, _⟩, _⟩, hnew⟩ := h.supply.alloc hi.held ha
    have hpos : 0 < size := by
      rcases Nat.eq_zero_or_pos size with rfl | hpos
      · obtain ⟨_, hbad⟩ := hA.alloc_zero ha
        cases hbad
      · exact hpos
    refine ⟨hnew, ?_, ?_⟩
    · exact List.forall_mem_cons.2 ⟨Nat.lt_of_lt_of_le hpos hlen, hi.nonempty⟩
    · exact List.forall_mem_cons.2 ⟨.fresh _ _ _ _ _,
        recalls_agreesOn hi (h.custody.alloc hi.held ha)⟩
  alloc_refused hi ha := ⟨h.supply.alloc_refused hi.held ha, hi.nonempty,
    recalls_agreesOn hi (h.custody.alloc hi.held ha)⟩
  zero := by
    rintro live s s' block size align hi
    have hfill : WrittenIn [block] s.2.memory (s.2.memory.write block.addr block.len fun _ => 0) :=
      writtenIn_write _ _ _ _
    obtain ⟨hfirst, hothers⟩ := List.forall_mem_cons.1 hi.nonempty
    obtain ⟨_, hknown⟩ := List.forall_mem_cons.1 hi.recalls
    refine ⟨h.supply.write hi.held (hfill.mem List.mem_cons_self), ?_, ?_⟩
    · exact List.forall_mem_cons.2 ⟨hfirst, hothers⟩
    · have hsame := hfill.agreesOn (List.pairwise_cons.1 (h.supply.apart hi.held)).1
      exact List.forall_mem_cons.2 ⟨.zero _ _ _ _ _,
        fun l hl => (hknown l hl).agreesOn hsame (List.mem_map_of_mem hl)⟩
  resize := by
    rintro lease live s size align block t hi hn hs hr
    obtain ⟨⟨⟨hlen, _⟩, _⟩, hnew⟩ := h.supply.resize hi.held hn hs hr
    obtain ⟨hsame, hcarried⟩ := h.custody.resize hi.held hn hs hr
    obtain ⟨_, hothers⟩ := List.forall_mem_cons.1 hi.nonempty
    obtain ⟨hfirst, hknown⟩ := List.forall_mem_cons.1 hi.recalls
    refine ⟨hnew, ?_, ?_⟩
    · exact List.forall_mem_cons.2
        ⟨Nat.lt_of_lt_of_le (Nat.pos_of_ne_zero hs) hlen, hothers⟩
    · exact List.forall_mem_cons.2 ⟨hfirst.renew hcarried _ _ _,
        fun l hl => (hknown l hl).agreesOn hsame (List.mem_map_of_mem hl)⟩
  resize_refused hi hn hs hr := ⟨h.supply.resize_refused hi.held hn hs hr, hi.nonempty,
    recalls_agreesOn hi (h.custody.resize_refused hi.held hn hs hr)⟩
  free hi hf := by
    have hsame := h.custody.free hi.held hf
    refine ⟨h.supply.free hi.held hf, (List.forall_mem_cons.1 hi.nonempty).2, ?_⟩
    intro l hl
    exact (hi.recalls l (List.mem_cons_of_mem _ hl)).agreesOn hsame (List.mem_map_of_mem hl)
  free_null := by
    rintro live ⟨b, m⟩ block ⟨b', m'⟩ hi hn hf
    obtain ⟨rfl, hmem⟩ := hA.free_null hn hf
    have hsame : AgreesOn (live.map (·.block)) m.memory m'.memory := fun _ _ a _ => by rw [hmem]
    exact ⟨h.supply.write hi.held fun a _ => by rw [hmem], hi.nonempty, recalls_agreesOn hi hsame⟩
  store := by
    rintro live s addr byte hi hw
    refine ⟨?_, ?_, ?_⟩
    · rw [map_store]
      exact h.supply.write hi.held (hw.writtenIn s.2.memory fun _ => byte)
    · intro l hl
      obtain ⟨l', hl', rfl⟩ := List.mem_map.1 hl
      exact hi.nonempty l' hl'
    · intro l hl
      obtain ⟨l', hl', rfl⟩ := List.mem_map.1 hl
      exact (hi.recalls l' hl').store addr byte

/-- After every disciplined run memory holds what the client knows. -/
theorem recalls (h : Contract A holds) (hA : Orderly A) {start : γ × Machine}
    (hstart : holds [] start) (hrun : Run A [] Disciplined start live s) :
    ∀ lease ∈ live, lease.Recalls s.2.memory := by
  have hnew : Recalled holds [] start := ⟨hstart, by simp, by simp⟩
  exact ((h.tenancy hA).run hA (by simp) hnew hrun).recalls

end Contract

/-- Whatever a disciplined client does, memory holds the bytes that it knows of its blocks: with the
fixed allocator over any buffer, and with an arena, a slab pool and a general-purpose allocator over
any allocator that meets the interface contract. -/
theorem recalls_of_disciplined :
    (∀ {base capacity : Nat} {m : Machine} {live : List (Lease Region)} {s : Region × Machine},
      base + capacity < wordLimit →
      Run Fixed.allocator [] Disciplined (⟨base, capacity, 0⟩, m) live s →
      ∀ lease ∈ live, lease.Recalls s.2.memory) ∧
    ∀ {β : Type} {B : Allocator β} {holds : List Slice → β × Machine → Prop} {b : β} {m : Machine},
      Contract B holds → holds [] (b, m) →
      (∀ {chunkSize : Nat} {live : List (Lease (Arena × β))} {s : (Arena × β) × Machine},
        Run (Arena.allocator B) [] Disciplined ((Arena.new chunkSize, b), m) live s →
        ∀ lease ∈ live, lease.Recalls s.2.memory) ∧
      (∀ {slabSize : Nat} {live : List (Lease (SlabPool × β))} {s : (SlabPool × β) × Machine},
        Run (SlabPool.allocator B) [] Disciplined ((SlabPool.new slabSize, b), m) live s →
        ∀ lease ∈ live, lease.Recalls s.2.memory) ∧
      ∀ {bucketSize : Nat} {live : List (Lease (GeneralPurpose × β))}
        {s : (GeneralPurpose × β) × Machine},
        Run (GeneralPurpose.allocator B) [] Disciplined ((GeneralPurpose.new bucketSize, b), m)
          live s →
        ∀ lease ∈ live, lease.Recalls s.2.memory := by
  refine ⟨fun hbound hrun => ?_, fun {β B holds b m} hB hstart => ⟨fun {chunkSize} _ _ hrun => ?_,
    fun {slabSize} _ _ hrun => ?_, fun {bucketSize} _ _ hrun => ?_⟩⟩
  · exact Fixed.stacking.contract.recalls Fixed.stacking.orderly (Fixed.holds_nil hbound) hrun
  · have hstack := Arena.stacking hB.supply hB.custody
    exact hstack.contract.recalls hstack.orderly ⟨[], .nil, .new chunkSize hstart⟩ hrun
  · exact (SlabPool.lending hB.keeper).contract.recalls (SlabPool.orderly B)
      (.new slabSize hstart) hrun
  · have hnone : NonNull holds [] (b, m) := ⟨hstart, by simp⟩
    exact (GeneralPurpose.lending hB).contract.recalls (GeneralPurpose.orderly B)
      (.new bucketSize hnone) hrun

/-- Four clients that get a block of zeros, store a byte in it and have it moved. -/
theorem recalls_of_four_clients :
    (∃ live s, Run Fixed.allocator [] Disciplined (⟨64, 256, 0⟩, ⟨.zero, [], []⟩) live s ∧
      live.map (fun l => (l.block, l.known 1)) = [(⟨112, 40⟩, some 7), (⟨96, 8⟩, none)] ∧
      ∀ lease ∈ live, lease.Recalls s.2.memory) ∧
    (∃ live s, Run (Arena.allocator Fixed.allocator) [] Disciplined
        ((Arena.new 64, ⟨64, 1024, 0⟩), ⟨.zero, [], []⟩) live s ∧
      live.map (fun l => (l.block, l.known 1)) = [(⟨152, 40⟩, some 7), (⟨104, 8⟩, none)] ∧
      ∀ lease ∈ live, lease.Recalls s.2.memory) ∧
    (∃ live s, Run (SlabPool.allocator Fixed.allocator) [] Disciplined
        ((SlabPool.new 64, ⟨64, 1024, 0⟩), ⟨.zero, [], []⟩) live s ∧
      live.map (fun l => (l.block, l.known 1)) = [(⟨96, 40⟩, some 7), (⟨88, 8⟩, none)] ∧
      ∀ lease ∈ live, lease.Recalls s.2.memory) ∧
    ∃ live s, Run (GeneralPurpose.allocator Fixed.allocator) [] Disciplined
        ((GeneralPurpose.new 64, ⟨64, 1024, 0⟩), ⟨.zero, [], []⟩) live s ∧
      live.map (fun l => (l.block, l.known 1)) = [(⟨224, 100⟩, some 7), (⟨152, 8⟩, none)] ∧
      ∀ lease ∈ live, lease.Recalls s.2.memory := by
  have hfixed : (Fixed.allocator.play Disciplined
      [.allocZeroed 16 8, .alloc 8 8, .write 73 7, .resize ⟨72, 16⟩ 40 8] []
      (⟨64, 256, 0⟩, ⟨.zero, [], []⟩)).map (·.1.map fun l => (l.block, l.known 1)) =
        some [(⟨112, 40⟩, some 7), (⟨96, 8⟩, none)] := by
    decide +kernel
  have harena : ((Arena.allocator Fixed.allocator).play Disciplined
      [.allocZeroed 16 8, .alloc 8 8, .write 81 7, .resize ⟨80, 16⟩ 40 8] []
      ((Arena.new 64, ⟨64, 1024, 0⟩), ⟨.zero, [], []⟩)).map
        (·.1.map fun l => (l.block, l.known 1)) =
        some [(⟨152, 40⟩, some 7), (⟨104, 8⟩, none)] := by
    decide +kernel
  have hslabs : ((SlabPool.allocator Fixed.allocator).play Disciplined
      [.allocZeroed 16 8, .alloc 8 8, .write 73 7, .resize ⟨72, 16⟩ 40 8] []
      ((SlabPool.new 64, ⟨64, 1024, 0⟩), ⟨.zero, [], []⟩)).map
        (·.1.map fun l => (l.block, l.known 1)) =
        some [(⟨96, 40⟩, some 7), (⟨88, 8⟩, none)] := by
    decide +kernel
  have hgeneral : ((GeneralPurpose.allocator Fixed.allocator).play Disciplined
      [.allocZeroed 16 8, .alloc 8 8, .write 81 7, .resize ⟨80, 16⟩ 100 8] []
      ((GeneralPurpose.new 64, ⟨64, 1024, 0⟩), ⟨.zero, [], []⟩)).map
        (·.1.map fun l => (l.block, l.known 1)) =
        some [(⟨224, 100⟩, some 7), (⟨152, 8⟩, none)] := by
    decide +kernel
  have hB : Contract Fixed.allocator (Stacking.Holds Fixed.Kept) := Fixed.stacking.contract
  have hnone {m : Machine} : Stacking.Holds Fixed.Kept [] ((⟨64, 1024, 0⟩ : Region), m) :=
    Fixed.holds_nil (by decide)
  obtain ⟨⟨live, s⟩, hplay, hlive⟩ := Option.map_eq_some_iff.1 hfixed
  obtain ⟨⟨live₁, s₁⟩, hplay₁, hlive₁⟩ := Option.map_eq_some_iff.1 harena
  obtain ⟨⟨live₂, s₂⟩, hplay₂, hlive₂⟩ := Option.map_eq_some_iff.1 hslabs
  obtain ⟨⟨live₃, s₃⟩, hplay₃, hlive₃⟩ := Option.map_eq_some_iff.1 hgeneral
  have hrun : Run Fixed.allocator [] Disciplined _ live s := Run.start.play hplay
  have hrun₁ : Run (Arena.allocator Fixed.allocator) [] Disciplined _ live₁ s₁ :=
    Run.start.play hplay₁
  have hrun₂ : Run (SlabPool.allocator Fixed.allocator) [] Disciplined _ live₂ s₂ :=
    Run.start.play hplay₂
  have hrun₃ : Run (GeneralPurpose.allocator Fixed.allocator) [] Disciplined _ live₃ s₃ :=
    Run.start.play hplay₃
  exact ⟨⟨live, s, hrun, hlive, recalls_of_disciplined.1 (by decide) hrun⟩,
    ⟨live₁, s₁, hrun₁, hlive₁, (recalls_of_disciplined.2 hB hnone).1 hrun₁⟩,
    ⟨live₂, s₂, hrun₂, hlive₂, (recalls_of_disciplined.2 hB hnone).2.1 hrun₂⟩,
    ⟨live₃, s₃, hrun₃, hlive₃, (recalls_of_disciplined.2 hB hnone).2.2 hrun₃⟩⟩

end AllocChain
