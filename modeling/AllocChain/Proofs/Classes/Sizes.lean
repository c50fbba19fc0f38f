import Mathlib.Data.Nat.Log
import Mathlib.Order.Bounds.Basic
import AllocChain.Proofs.Ownership

/-!
The classes of a general-purpose allocator are the tightest there are. An object has the least power
of two that is not below the request, so a class is a logarithm that is rounded up
(`GeneralPurpose.sizeClass_eq_clog`), and what is known of classes follows from what is known of
those. Main statement: whatever was done with an allocator, the size of its buckets is the setting
rounded up and capped, and a request has a class exactly if its object fits in a bucket
(`graded_of_run`).
-/

namespace AllocChain

/-- The powers of two that are not below `n`. -/
def powersFrom (n : Nat) : Set Nat := {p | (∃ k, p = 2 ^ k) ∧ n ≤ p}

/-- The least of them has the logarithm of `n`, rounded up, as its exponent. -/
theorem isLeast_powersFrom {n c : Nat} : IsLeast (powersFrom n) (2 ^ c) ↔ c = Nat.clog 2 n := by
  have hleast : IsLeast (powersFrom n) (2 ^ Nat.clog 2 n) := by
    refine ⟨⟨⟨_, rfl⟩, Nat.le_pow_clog Nat.one_lt_two n⟩, ?_⟩
    rintro p ⟨⟨k, rfl⟩, hle⟩
    exact Nat.pow_le_pow_right Nat.two_pos (Nat.clog_le_of_le_pow hle)
  constructor
  · exact fun h => Nat.pow_right_injective (Nat.le_refl 2) (h.unique hleast)
  · rintro rfl
    exact hleast

/-- No power of two is below one. -/
theorem powersFrom_max_one (n : Nat) : powersFrom (max n 1) = powersFrom n := by
  refine Set.ext fun p => and_congr_right ?_
  rintro ⟨k, rfl⟩
  have := Nat.two_pow_pos k
  omega

theorem Word.nextPowerOfTwo?_eq_clog (n : Nat) :
    nextPowerOfTwo? n =
      if 2 ^ Nat.clog 2 n < wordLimit then some (2 ^ Nat.clog 2 n) else none := by
  have hpower : (if n ≤ 1 then 1 else 2 ^ ((n - 1).log2 + 1)) = 2 ^ Nat.clog 2 n := by
    split_ifs with hn
    · rw [Nat.clog_of_right_le_one hn, Nat.pow_zero]
    · -- one less than `n` lies below the power, and not below the one before
      have hlog := Nat.log2_self_le (show n - 1 ≠ 0 by omega)
      have hnext := Nat.lt_log2_self (n := n - 1)
      have hle : Nat.clog 2 n ≤ (n - 1).log2 + 1 := Nat.clog_le_of_le_pow (by omega)
      have hlt : (n - 1).log2 < Nat.clog 2 n := (Nat.lt_clog_iff_pow_lt Nat.one_lt_two).2 (by omega)
      rw [Nat.le_antisymm hle hlt]
  simp only [nextPowerOfTwo?, hpower]

namespace GeneralPurpose

variable {g : GeneralPurpose} {n c size align : Nat}

/-- The bucket size that a setting asks for: zero stands for the default. -/
def wantedSize (setting : Nat) : Nat := if setting = 0 then defaultBucketSize else setting

/-- The size of the buckets is rounded up and capped. -/
theorem bucketSize_new (n : Nat) :
    (new n).bucketSize = min (2 ^ Nat.clog 2 (wantedSize n)) maxBucketSize := by
  change min ((Word.nextPowerOfTwo? (wantedSize n)).getD maxBucketSize) maxBucketSize = _
  rw [Word.nextPowerOfTwo?_eq_clog]
  split_ifs with hword
  · rfl
  · -- what is no word is larger than the cap
    have hcap : maxBucketSize ≤ 2 ^ Nat.clog 2 (wantedSize n) :=
      Nat.le_trans (by decide) (Nat.le_of_not_lt hword)
    rw [Option.getD_none, Nat.min_self, Nat.min_eq_right hcap]

/-- The table has a class for every object that fits in a bucket. -/
theorem lt_classCount (hcap : g.bucketSize ≤ maxBucketSize) (hfits : 2 ^ c ≤ g.bucketSize) :
    c < classCount := by
  have hle : c ≤ classCount - 1 :=
    (Nat.pow_le_pow_iff_right Nat.one_lt_two).1 (Nat.le_trans hfits hcap)
  exact Nat.lt_of_le_of_lt hle (by decide)

/-- The class of a request is a logarithm that is rounded up. -/
theorem sizeClass_eq_clog (hcap : g.bucketSize ≤ maxBucketSize) :
    g.sizeClass size align = .ok (some c) ↔
      c = Nat.clog 2 (max size align) ∧ 2 ^ c ≤ g.bucketSize := by
  rw [sizeClass_eq_some_iff, Word.nextPowerOfTwo?_eq_clog]
  constructor
  · rintro ⟨hpower, hfits, _⟩
    split_ifs at hpower
    exact ⟨(Nat.pow_right_injective (Nat.le_refl 2) (Option.some.inj hpower)).symm, hfits⟩
  · rintro ⟨rfl, hfits⟩
    have hword : 2 ^ Nat.clog 2 (max size align) < wordLimit :=
      Nat.lt_of_le_of_lt (Nat.le_trans hfits hcap) (by decide)
    exact ⟨if_pos hword, hfits, lt_classCount hcap hfits⟩

/-- How an allocator with the setting `n` sorts requests into classes. -/
structure Graded (n : Nat) (g : GeneralPurpose) : Prop where
  /-- A bucket has the least power of two that is not below what was asked for, or the cap. -/
  bucketSize : ∃ p, IsLeast (powersFrom (if n = 0 then 4096 else n)) p ∧
    g.bucketSize = min p (2 ^ 15)
  /-- It can be told of every request what its class is, or that it has none. -/
  told : ∀ size align, ∃ found, g.sizeClass size align = .ok found
  /-- The object of a request is such a power too, and it has a class if it fits in a bucket. -/
  tightest : ∀ size align c, g.sizeClass size align = .ok (some c) ↔
    IsLeast (powersFrom (max (max size align) 1)) (2 ^ c) ∧ 2 ^ c ≤ g.bucketSize
  /-- The table has room for all classes. -/
  inTable : ∀ c, 2 ^ c ≤ g.bucketSize → c < classCount
  /-- The object has room for the request, and a slot that is a multiple of it is aligned. -/
  fits : ∀ size align c, g.sizeClass size align = .ok (some c) →
    size ≤ 2 ^ c ∧ ((∃ k, align = 2 ^ k) → align ∣ 2 ^ c)
  /-- A request for a whole object does not need a larger one. -/
  whole : ∀ align c, 2 ^ c ≤ g.bucketSize → align ≤ 2 ^ c → g.sizeClass (2 ^ c) align = .ok (some c)
  /-- A smaller request has no larger class; those without a class are above all that have one. -/
  monotone : ∀ size align size' align' c', size ≤ size' → align ≤ align' →
    g.sizeClass size' align' = .ok (some c') → ∃ c ≤ c', g.sizeClass size align = .ok (some c)

theorem graded_of_setting (h : g.bucketSize = (new n).bucketSize) : Graded n g := by
  have hsize := h.trans (bucketSize_new n)
  have hcap : g.bucketSize ≤ maxBucketSize := hsize ▸ Nat.min_le_right _ _
  refine ⟨⟨_, isLeast_powersFrom.2 rfl, hsize⟩, g.sizeClass_returns, ?_,
    fun c hfits => lt_classCount hcap hfits, ?_, ?_, ?_⟩
  · intro size align c
    rw [powersFrom_max_one, isLeast_powersFrom]
    exact sizeClass_eq_clog hcap
  · intro size align c hclass
    obtain ⟨hlen, halign⟩ := sizeClass_eq_some hclass
    exact ⟨hlen, fun hpow => dvd_two_pow hpow halign⟩
  · intro align c hfits halign
    refine (sizeClass_eq_clog hcap).2 ⟨?_, hfits⟩
    rw [Nat.max_eq_left halign, Nat.clog_pow 2 c Nat.one_lt_two]
  · intro size align size' align' c' hlen halign hclass
    obtain ⟨rfl, hfits⟩ := (sizeClass_eq_clog hcap).1 hclass
    have hle : Nat.clog 2 (max size align) ≤ Nat.clog 2 (max size' align') :=
      Nat.clog_mono_right 2 (by omega)
    have hsmaller := Nat.pow_le_pow_right Nat.two_pos hle
    exact ⟨_, hle, (sizeClass_eq_clog hcap).2 ⟨rfl, Nat.le_trans hsmaller hfits⟩⟩

end GeneralPurpose

/-- Whatever a client does with a general-purpose allocator, and whatever is behind it: the size of
the buckets stays the setting, rounded up to a power of two and capped, and the class of a request
is the tightest one that there is. -/
theorem graded_of_run {β : Type} {B : Allocator β} {n : Nat}
    {rule : List (Lease (GeneralPurpose × β)) → Deed → Prop} {b : β} {m : Machine}
    {live : List (Lease (GeneralPurpose × β))} {s : (GeneralPurpose × β) × Machine}
    (hrun : Run (GeneralPurpose.allocator B) [GeneralPurpose.destroy B] rule
      ((GeneralPurpose.new n, b), m) live s) : GeneralPurpose.Graded n s.1.1 :=
  GeneralPurpose.graded_of_setting
    (GeneralPurpose.owns_of_run (.blank B) (fun _ _ _ _ _ => trivial) trivial hrun).2

/-- A setting that is no power of two, after a small and a large request, and one that is rounded up
to more than a word holds. -/
theorem graded_of_odd_settings :
    (∃ live s, Run (GeneralPurpose.allocator Fixed.allocator)
        [GeneralPurpose.destroy Fixed.allocator] Unruly
        ((GeneralPurpose.new 1000, ⟨4096, 8192, 0⟩), ⟨.zero, [], []⟩) live s ∧
      live.map (·.block) = [⟨5256, 2000⟩, ⟨4224, 100⟩] ∧ GeneralPurpose.Graded 1000 s.1.1 ∧
      s.1.1.bucketSize = 1024 ∧ s.1.1.sizeClass 2 64 = .ok (some 6) ∧
      s.1.1.sizeClass 1024 1 = .ok (some 10) ∧ s.1.1.sizeClass 1025 1 = .ok none) ∧
    GeneralPurpose.Graded (2 ^ 63 + 1) (.new (2 ^ 63 + 1)) ∧
      (GeneralPurpose.new (2 ^ 63 + 1)).bucketSize = 2 ^ 15 := by
  have hlast : ((GeneralPurpose.allocator Fixed.allocator).play Unruly
      [.alloc 100 8, .alloc 2000 8] []
      ((GeneralPurpose.new 1000, ⟨4096, 8192, 0⟩), ⟨.zero, [], []⟩)).map
        (fun r => (r.1.map (·.block), r.2.1.1.bucketSize)) =
        some ([⟨5256, 2000⟩, ⟨4224, 100⟩], 1024) := by
    decide +kernel
  obtain ⟨⟨live, s⟩, hplay, hends⟩ := Option.map_eq_some_iff.1 hlast
  have hlive : live.map (·.block) = [⟨5256, 2000⟩, ⟨4224, 100⟩] := (Prod.mk.inj hends).1
  have hsize : s.1.1.bucketSize = 1024 := (Prod.mk.inj hends).2
  have hclass : s.1.1.sizeClass 2 64 = .ok (some 6) ∧ s.1.1.sizeClass 1024 1 = .ok (some 10) ∧
      s.1.1.sizeClass 1025 1 = .ok none := by
    simp only [GeneralPurpose.sizeClass_eq, hsize, Except.ok.injEq]
    decide +kernel
  have hrun : Run (GeneralPurpose.allocator Fixed.allocator)
      [GeneralPurpose.destroy Fixed.allocator] Unruly _ live s := Run.start.play hplay
  have hlarge : Run (GeneralPurpose.allocator Fixed.allocator)
      [GeneralPurpose.destroy Fixed.allocator] Unruly
      ((GeneralPurpose.new (2 ^ 63 + 1), ⟨4096, 8192, 0⟩), ⟨.zero, [], []⟩) [] _ := .start
  exact ⟨⟨live, s, hrun, hlive, graded_of_run hrun, hsize, hclass⟩, graded_of_run hlarge,
    by decide +kernel⟩

end AllocChain
