import Mathlib.Data.Nat.Bitwise
import Mathlib.Tactic.Common

/-!
# Little-endian numbers in a buffer

- `byteAt`, `littleEndian`: what lies at a position of a buffer;
- `littleEndian_lt`, `littleEndian_congr`, `testBit_littleEndian`: which bytes a number has;
- `bytes`: a number as bytes, `littleEndian_bytes`: and back.
-/

namespace LittleEndian

variable {buf buf' : List UInt8} {i j k n b : Nat}

def byteAt (buf : List UInt8) (i : Nat) : Nat := (buf.getD i 0).toNat

/-- The little-endian number of `k` bytes. -/
def littleEndian (buf : List UInt8) (i : Nat) : Nat → Nat
  | 0 => 0
  | k + 1 => byteAt buf i + 256 * littleEndian buf (i + 1) k

/-- The `k` bytes of a number. -/
def bytes : Nat → Nat → List UInt8
  | 0, _ => []
  | k + 1, n => UInt8.ofNat n :: bytes k (n / 256)

theorem byteAt_lt : byteAt buf i < 256 := (buf.getD i 0).toNat_lt

theorem littleEndian_lt : littleEndian buf i k < 256 ^ k := by
  induction k generalizing i with
  | zero => exact Nat.one_pos
  | succ k ih =>
    have hbyte : byteAt buf i < 256 := byteAt_lt
    have hrest := @ih (i + 1)
    rw [littleEndian, Nat.pow_succ]
    lia

theorem littleEndian_one : littleEndian buf i 1 = byteAt buf i := rfl

theorem littleEndian_four : littleEndian buf i 4 =
    byteAt buf i + 256 * (byteAt buf (i + 1) + 256 * (byteAt buf (i + 2)
      + 256 * byteAt buf (i + 3))) := rfl

theorem littleEndian_congr (h : ∀ q, i ≤ q → q < i + k → byteAt buf q = byteAt buf' q) :
    littleEndian buf i k = littleEndian buf' i k := by
  induction k generalizing i with
  | zero => rfl
  | succ k ih =>
    rw [littleEndian, littleEndian, h i (Nat.le_refl i) (by omega),
      ih fun q hlo hhi => h q (by omega) (by omega)]

theorem testBit_littleEndian (hj : j < k) (hb : b < 8) :
    (littleEndian buf i k).testBit (8 * j + b) = (byteAt buf (i + j)).testBit b := by
  induction k generalizing i j with
  | zero => exact absurd hj (Nat.not_lt_zero j)
  | succ k ih =>
    have hbyte : byteAt buf i < 2 ^ 8 := byteAt_lt
    rw [littleEndian, Nat.add_comm, show (256 : Nat) = 2 ^ 8 from rfl,
      Nat.testBit_two_pow_mul_add _ hbyte]
    rcases j with _ | j
    · rw [if_pos (by lia), Nat.mul_zero, Nat.zero_add, Nat.add_zero]
    · rw [if_neg (by lia), show 8 * (j + 1) + b - 8 = 8 * j + b by lia,
        ih (Nat.lt_of_succ_lt_succ hj), show i + 1 + j = i + (j + 1) by lia]

/-! ## Bytes -/

@[simp] theorem length_bytes (k n : Nat) : (bytes k n).length = k := by
  induction k generalizing n with
  | zero => rfl
  | succ k ih => rw [bytes, List.length_cons, ih]

theorem byteAt_cons (b : UInt8) (i : Nat) : byteAt (b :: buf) (i + 1) = byteAt buf i := rfl

theorem littleEndian_cons (b : UInt8) :
    littleEndian (b :: buf) (i + 1) k = littleEndian buf i k := by
  induction k generalizing i with
  | zero => rfl
  | succ k ih => rw [littleEndian, littleEndian, byteAt_cons, ih]

theorem littleEndian_bytes (h : n < 256 ^ k) (rest : List UInt8) :
    littleEndian (bytes k n ++ rest) 0 k = n := by
  induction k generalizing n with
  | zero =>
    rw [Nat.pow_zero] at h
    rw [littleEndian]
    lia
  | succ k ih =>
    have hdiv : n / 256 < 256 ^ k := by
      rw [Nat.pow_succ] at h
      exact Nat.div_lt_of_lt_mul (by lia)
    have hhead : byteAt (bytes (k + 1) n ++ rest) 0 = n % 256 := UInt8.toNat_ofNat'
    rw [littleEndian, hhead, bytes, List.cons_append, littleEndian_cons, ih hdiv]
    lia

end LittleEndian
