import AllocChain.Word.Basic
import AllocChain.Memory.Slice

/-!
Memory gives a byte for every address. All changes are writes of a range, so one equation says
what a change does to each byte; a word is stored in eight bytes, the lowest first.
-/

namespace AllocChain

/-- A byte at every address. -/
@[ext]
structure Memory where
  byte : Nat → UInt8

namespace Memory

/-- Memory that holds zeros only. -/
def zero : Memory := ⟨fun _ => 0⟩

/-- Stores `f i` at `addr + i` for each `i` below `len`. -/
def write (m : Memory) (addr len : Nat) (f : Nat → UInt8) : Memory :=
  ⟨fun a => if addr ≤ a ∧ a < addr + len then f (a - addr) else m.byte a⟩

/-- Copies `count` bytes from `source` to `target`. -/
def copy (m : Memory) (source target count : Nat) : Memory :=
  m.write target count fun i => m.byte (source + i)

/-- Stores the word `value` in the eight bytes at `addr`, the lowest byte first. -/
def writeWord (m : Memory) (addr value : Nat) : Memory :=
  m.write addr 8 fun i => UInt8.ofNat (value / 256 ^ i)

/-- The word in the `n` bytes at `addr`, the lowest byte first. -/
def readBytes (m : Memory) (addr : Nat) : Nat → Nat
  | 0 => 0
  | n + 1 => (m.byte addr).toNat + 256 * readBytes m (addr + 1) n

/-- The word in the eight bytes at `addr`. -/
def readWord (m : Memory) (addr : Nat) : Nat := m.readBytes addr 8

/-- Copies as many bytes from the one slice to the other as both have; null slices have none. -/
def copyCommon (m : Memory) (source target : Slice) : Memory :=
  m.copy source.addr target.addr (source.common target)

@[simp]
theorem byte_write (m : Memory) (addr len : Nat) (f : Nat → UInt8) (a : Nat) :
    (m.write addr len f).byte a = if addr ≤ a ∧ a < addr + len then f (a - addr) else m.byte a :=
  rfl

@[simp]
theorem byte_copy (m : Memory) (source target count a : Nat) :
    (m.copy source target count).byte a =
      if target ≤ a ∧ a < target + count then m.byte (source + (a - target)) else m.byte a :=
  rfl

@[simp]
theorem byte_writeWord (m : Memory) (addr value a : Nat) :
    (m.writeWord addr value).byte a =
      if addr ≤ a ∧ a < addr + 8 then UInt8.ofNat (value / 256 ^ (a - addr)) else m.byte a :=
  rfl

theorem readBytes_congr {m m' : Memory} (n addr : Nat)
    (h : ∀ a, addr ≤ a → a < addr + n → m.byte a = m'.byte a) :
    m.readBytes addr n = m'.readBytes addr n := by
  induction n generalizing addr with
  | zero => rfl
  | succ n ih =>
    rw [readBytes, readBytes, h addr (Nat.le_refl _) (by omega),
      ih (addr + 1) fun a ha hb => h a (by omega) (by omega)]

/-- Bytes that spell out `value` are read as its remainder. -/
theorem readBytes_of_digits {m : Memory} (n addr value : Nat)
    (h : ∀ i, i < n → m.byte (addr + i) = UInt8.ofNat (value / 256 ^ i)) :
    m.readBytes addr n = value % 256 ^ n := by
  induction n generalizing addr value with
  | zero => simp [readBytes, Nat.mod_one]
  | succ n ih =>
    have htail := ih (addr + 1) (value / 256) fun i hi => by
      have := h (i + 1) (by omega)
      rw [show addr + 1 + i = addr + (i + 1) by omega, this, Nat.div_div_eq_div_mul,
        Nat.pow_succ, Nat.mul_comm]
    have hhead := h 0 (by omega)
    simp only [Nat.add_zero, Nat.pow_zero, Nat.div_one] at hhead
    rw [readBytes, htail, hhead, Nat.pow_succ, Nat.mul_comm (256 ^ n), Nat.mod_mul]
    simp

theorem readWord_writeWord (m : Memory) (addr : Nat) {value : Nat} (h : value < wordLimit) :
    (m.writeWord addr value).readWord addr = value := by
  rw [readWord, readBytes_of_digits 8 addr value]
  · exact Nat.mod_eq_of_lt (by simpa [wordLimit] using h)
  · intro i hi
    simp [hi]

end Memory
end AllocChain
