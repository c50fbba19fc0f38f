import Mathlib.Data.List.Induction
import Mathlib.Order.Bounds.Defs
import AllocChain.Bits.Sequence
import AllocChain.Proofs.Bits.Bitmap
import AllocChain.Proofs.Bits.BitSet

/-!
Bits after any number of marks. A mark sets or clears one bit; a mark beyond the bits faults and
leaves them as they are. What is known of the bits is what the marks say: a bit is set if it was set
by the last mark on it. Main statements: a bitmap is a row of such bits and is known by them
(`Bitmap.bits_of_marks`), and a bit set lists them in ascending order
(`BitSet.members_of_marks`).
-/

namespace AllocChain

/-- A call that changes one bit. -/
inductive Mark where
  | set (index : Nat)
  | unset (index : Nat)
  deriving DecidableEq, Repr

namespace Mark

/-- The bit that is marked. -/
def index : Mark → Nat
  | set i | unset i => i

/-- The last mark on bit `i` sets it. -/
def LastSets (marks : List Mark) (i : Nat) : Prop :=
  ∃ before later, marks = before ++ .set i :: later ∧ ∀ m ∈ later, m.index ≠ i

variable {marks : List Mark} {m : Mark} {i n : Nat}

theorem not_lastSets_nil : ¬ LastSets [] i := by
  rintro ⟨before, later, h, _⟩
  cases before <;> cases h

/-- A mark on the bit itself decides; any other changes nothing. -/
theorem lastSets_concat :
    LastSets (marks ++ [m]) i ↔ m = .set i ∨ m.index ≠ i ∧ LastSets marks i := by
  constructor
  · rintro ⟨before, later, heq, hlater⟩
    rcases List.eq_nil_or_concat later with rfl | ⟨later, last, rfl⟩
    · exact .inl (List.cons.inj (List.append_inj' heq rfl).2).1
    · rw [List.concat_eq_append, ← List.cons_append, ← List.append_assoc] at heq
      obtain ⟨hmarks, hlast⟩ := List.append_inj' heq rfl
      obtain rfl : m = last := (List.cons.inj hlast).1
      exact .inr ⟨hlater m (by simp), before, later, hmarks, fun m' hm => hlater m' (by simp [hm])⟩
  · rintro (rfl | ⟨hne, before, later, rfl, hlater⟩)
    · exact ⟨marks, [], rfl, by simp⟩
    · refine ⟨before, later ++ [m], by simp, ?_⟩
      intro m' hm
      rcases List.mem_append.1 hm with hold | hnew
      · exact hlater m' hold
      · rw [List.mem_singleton.1 hnew]
        exact hne

/-- Reading bit `i` of `t` after mark `m` on `s`: a mark on it that is not beyond the `n` bits tells
what it is now. -/
def Turns {σ : Type} (n : Nat) (read : σ → Nat → Bool) (m : Mark) (s t : σ) : Prop :=
  ∀ i, read t i = true ↔ m = .set i ∧ i < n ∨ (m.index ≠ i ∨ n ≤ i) ∧ read s i = true

/-- If every single mark turns the bit that it names, the last mark on a bit tells what it is. The
invariant `inv` is what a state has to keep for that. -/
theorem read_foldl {σ : Type} {read : σ → Nat → Bool} {step : σ → Mark → σ} {s : σ}
    (inv : σ → Prop) (hs : inv s) (hclear : ∀ i, read s i = false)
    (hstep : ∀ s m, inv s → inv (step s m) ∧ Turns n read m s (step s m)) (marks : List Mark) :
    inv (marks.foldl step s) ∧
      ∀ i, read (marks.foldl step s) i = true ↔ i < n ∧ LastSets marks i := by
  -- the induction takes the last mark off: it decides about its own bit and no other
  induction marks using List.reverseRecOn with
  | nil => exact ⟨hs, fun i => by simp [hclear, not_lastSets_nil]⟩
  | append_singleton marks m ih =>
    obtain ⟨hinv, hread⟩ := ih
    obtain ⟨hinv', hturns⟩ := hstep _ m hinv
    rw [List.foldl_append, List.foldl_cons, List.foldl_nil]
    refine ⟨hinv', fun i => ?_⟩
    rw [hturns, hread, lastSets_concat]
    grind

end Mark

open Mark

/-! ### Bitmaps -/

namespace Bitmap

variable {b : Bitmap} {m : Mark} {i n : Nat}

/-- What a mark does to a row. -/
def mark (b : Bitmap) : Mark → Changed Bitmap
  | .set i => b.set i
  | .unset i => b.unset i

/-- The row of `n` bits after some marks on clear ones. -/
def marked (n : Nat) (marks : List Mark) : Bitmap :=
  marks.foldl (fun b m => (b.mark m).left) (clear n)

theorem mark_below (hb : b.Packed) (h : m.index < b.length) :
    (b.mark m).ended = .ok () ∧ (b.mark m).left.Packed ∧ (b.mark m).left.length = b.length ∧
      Turns b.length get m b (b.mark m).left := by
  cases m with
  | set i =>
    have hlt : i < b.length := h
    obtain ⟨b', hset⟩ := set_returns hlt
    obtain ⟨hended, rfl⟩ := Changed.result_eq_ok_iff.1 hset
    refine ⟨hended, hb.set hset, length_set hset, fun j => ?_⟩
    simp only [mark, get_set hb hset]
    grind [index]
  | unset i =>
    have hlt : i < b.length := h
    obtain ⟨b', hunset⟩ := unset_returns hlt
    obtain ⟨hended, rfl⟩ := Changed.result_eq_ok_iff.1 hunset
    refine ⟨hended, hb.unset hunset, length_unset hunset, fun j => ?_⟩
    simp only [mark, get_unset hb hunset]
    grind [index]

theorem mark_beyond (h : b.length ≤ m.index) : b.mark m = ⟨.error .bitOutOfBounds, b⟩ := by
  cases m with
  | set i | unset i =>
    have hlt : ¬ i < b.length := Nat.not_lt.2 h
    simp only [mark, set, unset, change, if_neg hlt]

/-- Whatever the mark, the row stays packed, and the bits below its length turn. -/
theorem mark_turns (h : b.Packed ∧ b.length = n) (m : Mark) :
    ((b.mark m).left.Packed ∧ (b.mark m).left.length = n) ∧ Turns n get m b (b.mark m).left := by
  obtain ⟨hb, rfl⟩ := h
  rcases Nat.lt_or_ge m.index b.length with hlt | hge
  · obtain ⟨_, hpacked, hlen, hturns⟩ := mark_below hb hlt
    exact ⟨⟨hpacked, hlen⟩, hturns⟩
  · rw [mark_beyond hge]
    refine ⟨⟨hb, rfl⟩, fun i => ?_⟩
    have hget : b.get i = true → i < b.length := lt_of_get
    grind [index]

theorem marked_spec (n : Nat) (marks : List Mark) :
    ((marked n marks).Packed ∧ (marked n marks).length = n) ∧
      ∀ i, (marked n marks).get i = true ↔ i < n ∧ LastSets marks i :=
  read_foldl (fun b => b.Packed ∧ b.length = n) ⟨packed_clear n, rfl⟩ (get_clear n)
    (fun _ m h => mark_turns h m) marks

/-- What can be seen of a row of `n` bits after some marks: the bits, the lowest clear one, the
number of set ones, and what a further mark does. -/
structure Shows (n : Nat) (marks : List Mark) (b : Bitmap) : Prop where
  length : b.length = n
  get : ∀ i, b.get i = true ↔ i < n ∧ LastSets marks i
  firstClear : ∀ i, b.firstClear = some i ↔ IsLeast {j | j < n ∧ b.get j = false} i
  full : b.firstClear = none ↔ ∀ i, i < n → b.get i = true
  count : b.count = (List.range n).countP b.get
  below : ∀ m : Mark, m.index < n → (b.mark m).ended = .ok ()
  beyond : ∀ m : Mark, n ≤ m.index → b.mark m = ⟨.error .bitOutOfBounds, b⟩

theorem shows_marked (n : Nat) (marks : List Mark) : Shows n marks (marked n marks) := by
  obtain ⟨⟨hb, hlen⟩, hget⟩ := marked_spec n marks
  refine ⟨hlen, hget, fun i => ?_, ?_, ?_, fun m hm => ?_, fun m hm => ?_⟩
  · rw [hb.firstClear_eq_some_iff, hlen]
    constructor
    · rintro ⟨hi, hclear, hlow⟩
      refine ⟨⟨hi, hclear⟩, fun j hj => Nat.le_of_not_lt fun hji => ?_⟩
      have hbelow := hlow j hji
      rw [hj.2] at hbelow
      cases hbelow
    · rintro ⟨⟨hi, hclear⟩, hleast⟩
      refine ⟨hi, hclear, fun j hj => ?_⟩
      cases hbit : (marked n marks).get j with
      | true => rfl
      | false =>
        have hle : i ≤ j := hleast ⟨Nat.lt_trans hj hi, hbit⟩
        omega
  · rw [hb.firstClear_eq_none_iff, hlen]
  · rw [hb.count_eq, taken, hlen, List.countP_eq_length_filter]
  · exact (mark_below hb (hlen.symm ▸ hm)).1
  · exact mark_beyond (hlen.symm ▸ hm)

/-- A row of bits is what the last mark on each bit says, whatever the marks were; two rows are the
same if they have the same length and the same bits. -/
theorem bits_of_marks (n : Nat) (marks : List Mark) :
    Shows n marks (marked n marks) ∧
      ∀ n' marks', marked n marks = marked n' marks' ↔
        n = n' ∧ ∀ i, i < n → (marked n marks).get i = (marked n' marks').get i := by
  refine ⟨shows_marked n marks, fun n' marks' => ?_⟩
  obtain ⟨⟨hb, hlen⟩, _⟩ := marked_spec n marks
  obtain ⟨⟨hb', hlen'⟩, _⟩ := marked_spec n' marks'
  constructor
  · intro heq
    have hlens : n = n' := by rw [← hlen, heq, hlen']
    exact ⟨hlens, fun i _ => by rw [heq]⟩
  · rintro ⟨rfl, hsame⟩
    refine hb.ext hb' (hlen.trans hlen'.symm) fun i => ?_
    rcases Nat.lt_or_ge i n with hi | hi
    · exact hsame i hi
    · have hbeyond : ∀ c : Bitmap, c.length = n → c.get i = false := fun c hc =>
        Bool.eq_false_iff.2 fun hbit => Nat.not_lt.2 (hc.symm ▸ hi) (lt_of_get hbit)
      rw [hbeyond _ hlen, hbeyond _ hlen']

end Bitmap

/-! ### Bit sets -/

namespace BitSet

variable {W : Nat} {s : BitSet W} {m : Mark} {i : Nat}

/-- What a mark does to a set. -/
def mark (s : BitSet W) : Mark → Changed (BitSet W)
  | .set i => s.insert i
  | .unset i => s.erase i

/-- The set after some marks on an empty one. -/
def marked (W : Nat) (marks : List Mark) : BitSet W :=
  marks.foldl (fun s m => (s.mark m).left) empty

theorem mark_below (s : BitSet W) (h : m.index < capacity W) :
    (s.mark m).ended = .ok () ∧ Turns (capacity W) test m s (s.mark m).left := by
  cases m with
  | set i =>
    have hlt : i < capacity W := h
    obtain ⟨s', hinsert⟩ : ∃ s', (s.insert i).result = .ok s' := change_returns hlt
    obtain ⟨hended, rfl⟩ := Changed.result_eq_ok_iff.1 hinsert
    refine ⟨hended, fun j => ?_⟩
    simp only [mark, test_insert hinsert]
    grind [index]
  | unset i =>
    have hlt : i < capacity W := h
    obtain ⟨s', herase⟩ : ∃ s', (s.erase i).result = .ok s' := change_returns hlt
    obtain ⟨hended, rfl⟩ := Changed.result_eq_ok_iff.1 herase
    refine ⟨hended, fun j => ?_⟩
    simp only [mark, test_erase herase]
    grind [index]

theorem mark_beyond (s : BitSet W) (h : capacity W ≤ m.index) :
    s.mark m = ⟨.error (.indexOutOfBounds W (m.index / wordBits)), s⟩ := by
  cases m with
  | set i | unset i =>
    have hge : capacity W ≤ i := h
    simp only [mark, insert, erase, change_beyond hge, index]

theorem mark_turns (s : BitSet W) (m : Mark) : Turns (capacity W) test m s (s.mark m).left := by
  rcases Nat.lt_or_ge m.index (capacity W) with hlt | hge
  · exact (mark_below s hlt).2
  · rw [mark_beyond s hge]
    intro i
    have htest : s.test i = true → i < capacity W := lt_of_test
    grind [index]

/-- What can be seen of a set after some marks: its members, the list of them, their number, and
what a further mark does. -/
structure Shows (marks : List Mark) (s : BitSet W) : Prop where
  test : ∀ i, s.test i = true ↔ i < capacity W ∧ LastSets marks i
  ascending : s.ones.Pairwise (· < ·)
  mem_ones : ∀ i, i ∈ s.ones ↔ s.test i = true
  length_ones : s.ones.length = s.count
  isEmpty : s.isEmpty = true ↔ s.ones = []
  below : ∀ m : Mark, m.index < capacity W → (s.mark m).ended = .ok ()
  beyond : ∀ m : Mark, capacity W ≤ m.index →
    s.mark m = ⟨.error (.indexOutOfBounds W (m.index / wordBits)), s⟩

/-- The members of a set are what the last mark on each number says, whatever the marks were, and
they are listed in ascending order, each once. -/
theorem members_of_marks (W : Nat) (marks : List Mark) : Shows marks (marked W marks) where
  test := (read_foldl (fun _ => True) trivial test_empty
    (fun s m _ => ⟨trivial, mark_turns s m⟩) marks).2
  ascending := ones_ascending _
  mem_ones _ := BitSet.mem_ones
  length_ones := BitSet.length_ones _
  isEmpty := isEmpty_iff _
  below _ hm := (mark_below _ hm).1
  beyond _ hm := mark_beyond _ hm

end BitSet
end AllocChain
