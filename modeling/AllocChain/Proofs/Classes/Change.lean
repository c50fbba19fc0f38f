import AllocChain.Proofs.Classes.Table

/-!
What changes in the table of a general-purpose allocator: a bucket is put up, replaced or taken
down, or a large block comes and goes. Each change is a permutation of what is held and of the
places, with one element more or less, and keeps the table sound.
-/

namespace AllocChain.GeneralPurpose

variable {g : GeneralPurpose} {c i : Nat} {bs new : List Bucket} {b b' : Bucket}
  {occupied : BitSet 1} {mem mem' : Slice}

theorem classes_setBuckets : (g.setBuckets c new).classes.toList = g.classes.toList.set c new := by
  rw [setBuckets, Vector.toList_setIfInBounds]

theorem row_setBuckets (hc : g.classes.toList[c]? = some bs) :
    (g.setBuckets c new).classes.toList[c]? = some new := by
  rw [classes_setBuckets, List.getElem?_set_self (List.getElem?_eq_some_iff.1 hc).1]

/-- The buckets of one class, and those of all others. -/
theorem buckets_setBuckets (hc : g.classes.toList[c]? = some bs) :
    ∃ rest, g.buckets.Perm (bs ++ rest) ∧
      ∀ new, (g.setBuckets c new).buckets.Perm (new ++ rest) := by
  obtain ⟨hlt, rfl⟩ := List.getElem?_eq_some_iff.1 hc
  have hmove : ∀ (pre post row : List Bucket), (pre ++ (row ++ post)).Perm (row ++ (pre ++ post)) :=
    fun pre post row => by
      rw [← List.append_assoc, ← List.append_assoc]
      exact List.perm_append_comm.append_right post
  refine ⟨(g.classes.toList.take c).flatten ++ (g.classes.toList.drop (c + 1)).flatten,
    ?_, ?_⟩
  · have hsplit : g.classes.toList = g.classes.toList.take c ++
        g.classes.toList[c] :: g.classes.toList.drop (c + 1) := by
      rw [List.getElem_cons_drop, List.take_append_drop]
    rw [buckets]
    conv_lhs => rw [hsplit, List.flatten_append, List.flatten_cons]
    exact hmove _ _ _
  · intro new
    rw [buckets, classes_setBuckets, List.set_eq_take_append_cons_drop, if_pos hlt,
      List.flatten_append, List.flatten_cons]
    exact hmove _ _ _

/-- A bucket and all others; replacing it or taking it down leaves the others. -/
theorem buckets_at (hc : g.classes.toList[c]? = some bs) (hi : bs[i]? = some b) :
    ∃ others, g.buckets.Perm (b :: others) ∧
      (∀ b', (g.setBuckets c (bs.set i b')).buckets.Perm (b' :: others)) ∧
      (g.setBuckets c (bs.eraseIdx i)).buckets.Perm others := by
  obtain ⟨rest, hall, hnew⟩ := buckets_setBuckets hc
  obtain ⟨hlt, rfl⟩ := List.getElem?_eq_some_iff.1 hi
  refine ⟨bs.eraseIdx i ++ rest, ?_, ?_, hnew _⟩
  · exact hall.trans ((List.getElem_cons_eraseIdx_perm hlt).symm.append_right rest)
  · intro b'
    exact (hnew _).trans ((List.set_perm_cons_eraseIdx hlt b').append_right rest)

/-- A new bucket comes last in its class. -/
theorem buckets_append (hc : g.classes.toList[c]? = some bs) (b : Bucket) :
    (g.setBuckets c (bs ++ [b])).buckets.Perm (b :: g.buckets) := by
  obtain ⟨rest, hall, hnew⟩ := buckets_setBuckets hc
  have hmiddle : (bs ++ [b] ++ rest).Perm (b :: (bs ++ rest)) := by
    rw [List.append_assoc]
    exact List.perm_middle
  exact (hnew _).trans (hmiddle.trans (hall.symm.cons b))

/-- What the buckets contribute by `f`, and the large blocks. -/
def parts (f : Bucket → List Slice) (g : GeneralPurpose) : List Slice :=
  g.buckets.flatMap f ++ g.large

theorem held_eq_parts (g : GeneralPurpose) : g.held = g.parts fun b => [b.storage] := by
  rw [held, parts, ← List.map_eq_flatMap]

variable (f : Bucket → List Slice)

theorem parts_append (hc : g.classes.toList[c]? = some bs) (b : Bucket) (occupied : BitSet 1) :
    (parts f { g.setBuckets c (bs ++ [b]) with occupied }).Perm (f b ++ g.parts f) := by
  have hnew := ((buckets_append hc b).flatMap_right f).append_right g.large
  rwa [List.flatMap_cons, List.append_assoc] at hnew

/-- One bucket and everything else: replacing the bucket or taking it down leaves the rest. -/
theorem parts_at (hc : g.classes.toList[c]? = some bs) (hi : bs[i]? = some b) :
    ∃ rest, (g.parts f).Perm (f b ++ rest) ∧
      (∀ b', ((g.setBuckets c (bs.set i b')).parts f).Perm (f b' ++ rest)) ∧
      ∀ occupied, (parts f { g.setBuckets c (bs.eraseIdx i) with occupied }).Perm rest := by
  obtain ⟨others, hall, hset, herase⟩ := buckets_at hc hi
  refine ⟨others.flatMap f ++ g.large, ?_, ?_, ?_⟩
  · have hflat := (hall.flatMap_right f).append_right g.large
    rwa [List.flatMap_cons, List.append_assoc] at hflat
  · intro b'
    have hflat := ((hset b').flatMap_right f).append_right g.large
    rwa [List.flatMap_cons, List.append_assoc] at hflat
  · intro occupied
    exact (herase.flatMap_right f).append_right g.large

theorem parts_push : (parts f { g with large := g.large ++ [mem] }).Perm (mem :: g.parts f) := by
  change (g.buckets.flatMap f ++ (g.large ++ [mem])).Perm _
  rw [← List.append_assoc]
  exact List.perm_append_singleton _ _

theorem parts_large (hi : g.large[i]? = some mem) :
    ∃ rest, (g.parts f).Perm (mem :: rest) ∧
      (∀ mem', (parts f { g with large := g.large.set i mem' }).Perm (mem' :: rest)) ∧
      (parts f { g with large := swapRemove g.large i }).Perm rest := by
  have hswap := swapRemove_perm hi
  obtain ⟨hlt, rfl⟩ := List.getElem?_eq_some_iff.1 hi
  have herase := List.getElem_cons_eraseIdx_perm hlt
  refine ⟨g.buckets.flatMap f ++ g.large.eraseIdx i, ?_, ?_, ?_⟩
  · exact (herase.symm.append_left _).trans List.perm_middle
  · intro mem'
    exact ((List.set_perm_cons_eraseIdx hlt mem').append_left _).trans List.perm_middle
  · exact (herase.trans hswap).cons_inv.symm.append_left _

/-! ### What is held -/

theorem held_append (hc : g.classes.toList[c]? = some bs) (b : Bucket) :
    (held { g.setBuckets c (bs ++ [b]) with occupied }).Perm (b.storage :: g.held) := by
  rw [held_eq_parts, held_eq_parts]
  exact parts_append _ hc b _

theorem held_set (hc : g.classes.toList[c]? = some bs) (hi : bs[i]? = some b)
    (hsame : b'.storage = b.storage) : (g.setBuckets c (bs.set i b')).held.Perm g.held := by
  rw [held_eq_parts, held_eq_parts]
  obtain ⟨rest, hall, hset, _⟩ := parts_at (fun b => [b.storage]) hc hi
  have hset' := hset b'
  rw [hsame] at hset'
  exact hset'.trans hall.symm

theorem held_eraseIdx (hc : g.classes.toList[c]? = some bs) (hi : bs[i]? = some b) :
    g.held.Perm (b.storage :: held { g.setBuckets c (bs.eraseIdx i) with occupied }) := by
  rw [held_eq_parts, held_eq_parts]
  obtain ⟨rest, hall, _, herase⟩ := parts_at (fun b => [b.storage]) hc hi
  exact hall.trans ((herase occupied).symm.cons b.storage)

theorem held_push : (held { g with large := g.large ++ [mem] }).Perm (mem :: g.held) := by
  rw [held_eq_parts, held_eq_parts]
  exact parts_push _

theorem held_large (hi : g.large[i]? = some mem) :
    ∃ rest, g.held.Perm (mem :: rest) ∧
      (∀ mem', (held { g with large := g.large.set i mem' }).Perm (mem' :: rest)) ∧
      (held { g with large := swapRemove g.large i }).Perm rest := by
  obtain ⟨rest, hall, hset, hswap⟩ := parts_large (fun b => [b.storage]) hi
  refine ⟨rest, ?_, ?_, ?_⟩
  · rw [held_eq_parts]
    exact hall
  · intro mem'
    rw [held_eq_parts]
    exact hset mem'
  · rw [held_eq_parts]
    exact hswap

/-! ### Soundness -/

/-- Replacing the buckets of a class by sound ones is sound, if it is marked whether there are
any. -/
theorem Sound.setBuckets (h : g.Sound) (hc : g.classes.toList[c]? = some bs)
    (hnew : ∀ b ∈ new, b.Sound c)
    (hocc : ∀ c', occupied.test c' = if c' = c then decide (new ≠ []) else g.occupied.test c') :
    Sound { g.setBuckets c new with occupied } := by
  have hlt : c < g.classes.toList.length := (List.getElem?_eq_some_iff.1 hc).1
  have hrow : ∀ c', (g.setBuckets c new).classes.toList[c']? =
      if c' = c then some new else g.classes.toList[c']? := by
    intro c'
    rw [classes_setBuckets, List.getElem?_set]
    by_cases hcc : c = c'
    · subst hcc
      rw [if_pos rfl, if_pos rfl, if_pos hlt]
    · rw [if_neg hcc, if_neg (Ne.symm hcc)]
  refine ⟨fun {c' bs'} hc' b hb => ?_, fun {c'} => ?_⟩
  · change (g.setBuckets c new).classes.toList[c']? = some bs' at hc'
    rw [hrow] at hc'
    by_cases hcc : c' = c
    · rw [if_pos hcc, Option.some.injEq] at hc'
      subst hc' hcc
      exact hnew b hb
    · rw [if_neg hcc] at hc'
      exact h.buckets hc' b hb
  · change occupied.test c' = true ↔ ∃ bs', (g.setBuckets c new).classes.toList[c']? = some bs' ∧ _
    rw [hocc, hrow]
    by_cases hcc : c' = c
    · simp [hcc]
    · rw [if_neg hcc, if_neg hcc]
      exact h.occupied

theorem Sound.large (h : g.Sound) (large : List Slice) : Sound { g with large } :=
  ⟨h.buckets, h.occupied⟩

theorem Sound.mem_bucket (h : g.Sound) (hc : g.classes.toList[c]? = some bs)
    (hi : bs[i]? = some b) : b.Sound c ∧ g.occupied.test c = true := by
  have hb := List.mem_of_getElem? hi
  exact ⟨h.buckets hc b hb, h.occupied.2 ⟨bs, hc, List.ne_nil_of_mem hb⟩⟩

/-- A bucket that is put up marks its class. -/
theorem Sound.append (h : g.Sound) (hc : g.classes.toList[c]? = some bs) (hb : b.Sound c)
    (hocc : (g.occupied.insert c).result = .ok occupied) :
    Sound { g.setBuckets c (bs ++ [b]) with occupied } := by
  refine h.setBuckets hc ?_ ?_
  · intro b' hb'
    rcases List.mem_append.1 hb' with hold | hnew
    · exact h.buckets hc b' hold
    · rw [List.mem_singleton.1 hnew]
      exact hb
  · intro c'
    rw [BitSet.test_insert hocc]
    by_cases hcc : c' = c <;> simp [hcc]

/-- A bucket that is replaced by a sound one leaves the marks as they are. -/
theorem Sound.set (h : g.Sound) (hc : g.classes.toList[c]? = some bs) (hi : bs[i]? = some b)
    (hb' : b'.Sound c) : (g.setBuckets c (bs.set i b')).Sound := by
  obtain ⟨_, hmark⟩ := h.mem_bucket hc hi
  have hne : bs.set i b' ≠ [] := fun hnil =>
    List.ne_nil_of_mem (List.mem_of_getElem? hi) ((List.set_eq_nil_iff _ _).1 hnil)
  refine h.setBuckets hc ?_ ?_
  · intro b'' hb''
    rcases List.mem_or_eq_of_mem_set hb'' with hold | rfl
    · exact h.buckets hc b'' hold
    · exact hb'
  · intro c'
    by_cases hcc : c' = c
    · rw [if_pos hcc, hcc, decide_eq_true hne]
      exact hmark
    · rw [if_neg hcc]

/-- A bucket that is taken down clears the mark of its class if it was the last one. -/
theorem Sound.eraseIdx (h : g.Sound) (hc : g.classes.toList[c]? = some bs) (hi : bs[i]? = some b)
    (hocc : (if bs.eraseIdx i = [] then (g.occupied.erase c).result else .ok g.occupied) =
      .ok occupied) :
    Sound { g.setBuckets c (bs.eraseIdx i) with occupied } := by
  obtain ⟨_, hmark⟩ := h.mem_bucket hc hi
  refine h.setBuckets hc (fun b' hb' => h.buckets hc b' (List.mem_of_mem_eraseIdx hb')) ?_
  intro c'
  by_cases hlast : bs.eraseIdx i = []
  · rw [if_pos hlast] at hocc
    rw [BitSet.test_erase hocc]
    by_cases hcc : c' = c <;> simp [hcc, hlast]
  · rw [if_neg hlast] at hocc
    cases hocc
    by_cases hcc : c' = c
    · rw [if_pos hcc, hcc, decide_eq_true hlast]
      exact hmark
    · rw [if_neg hcc]

/-! ### The class of a request -/

end AllocChain.GeneralPurpose

namespace AllocChain

theorem Word.nextPowerOfTwo?_eq_some {n p : Nat} (h : nextPowerOfTwo? n = some p) :
    n ≤ p ∧ ∃ k, p = 2 ^ k := by
  simp only [nextPowerOfTwo?] at h
  by_cases hn : n ≤ 1
  · simp only [if_pos hn] at h
    split at h
    · cases h
      exact ⟨hn, 0, rfl⟩
    · cases h
  · simp only [if_neg hn] at h
    have hlog : n - 1 < 2 ^ ((n - 1).log2 + 1) := Nat.lt_log2_self
    split at h
    · cases h
      exact ⟨by omega, _, rfl⟩
    · cases h

theorem dvd_two_pow {a c : Nat} (ha : ∃ k, a = 2 ^ k) (hle : a ≤ 2 ^ c) : a ∣ 2 ^ c := by
  obtain ⟨k, rfl⟩ := ha
  exact Nat.pow_dvd_pow 2 ((Nat.pow_le_pow_iff_right (Nat.lt_succ_self 1)).1 hle)

/-- An object size is a power of two, so its exponent is there. -/
theorem GeneralPurpose.sizeClass_eq (g : GeneralPurpose) (size align : Nat) :
    g.sizeClass size align = .ok (match Word.nextPowerOfTwo? (max size align) with
      | none => none
      | some objSize =>
        if g.bucketSize < objSize then none
        else if objSize.log2 < classCount then some objSize.log2 else none) := by
  simp only [sizeClass]
  cases hp : Word.nextPowerOfTwo? (max size align) with
  | none => rfl
  | some objSize =>
    obtain ⟨_, hpower⟩ := Word.nextPowerOfTwo?_eq_some hp
    simp only [Word.log2, Word.isPowerOfTwo_iff.2 hpower, if_true]
    split <;> rfl

theorem GeneralPurpose.sizeClass_returns (g : GeneralPurpose) (size align : Nat) :
    ∃ found, g.sizeClass size align = .ok found := ⟨_, g.sizeClass_eq size align⟩

/-- A request has a class if its object fits in a bucket and the table has room for the class. -/
theorem GeneralPurpose.sizeClass_eq_some_iff {g : GeneralPurpose} {size align c : Nat} :
    g.sizeClass size align = .ok (some c) ↔
      Word.nextPowerOfTwo? (max size align) = some (2 ^ c) ∧ 2 ^ c ≤ g.bucketSize ∧
        c < classCount := by
  rw [sizeClass_eq, Except.ok.injEq]
  cases hp : Word.nextPowerOfTwo? (max size align) with
  | none => simp
  | some objSize =>
    obtain ⟨_, k, rfl⟩ := Word.nextPowerOfTwo?_eq_some hp
    have hexp : 2 ^ k = 2 ^ c ↔ k = c := Nat.pow_right_inj Nat.one_lt_two
    simp only [Nat.log2_two_pow, Option.some.injEq, hexp]
    constructor
    · intro h
      split_ifs at h with hlarge hclass
      cases h
      exact ⟨rfl, Nat.le_of_not_lt hlarge, hclass⟩
    · rintro ⟨rfl, hfits, hclass⟩
      rw [if_neg (Nat.not_lt.2 hfits), if_pos hclass]

/-- A small request fits into an object of its class, and so does its alignment. -/
theorem GeneralPurpose.sizeClass_eq_some {g : GeneralPurpose} {size align c : Nat}
    (h : g.sizeClass size align = .ok (some c)) : size ≤ 2 ^ c ∧ align ≤ 2 ^ c :=
  Nat.max_le.1 (Word.nextPowerOfTwo?_eq_some (sizeClass_eq_some_iff.1 h).1).1

end AllocChain
