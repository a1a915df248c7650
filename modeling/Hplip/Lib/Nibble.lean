import Mathlib.Algebra.Ring.Nat
import Mathlib.Data.Nat.Basic

/-!
# Half bytes

A byte buffer as a sequence of half bytes, the lower one of each byte first, and a
table of 12-bit entries as three half bytes for each, in the same order.
-/

namespace Nibble

/-- Half byte `k` of a buffer. -/
def nibble (m : Nat → UInt8) (k : Nat) : Nat :=
  if k % 2 = 0 then (m (k / 2)).toNat % 16 else (m (k / 2)).toNat / 16

/-- Half byte `k` of a table of entries. -/
def digit (t : Nat → Nat) (k : Nat) : Nat := t (k / 3) / 16 ^ (k % 3) % 16

theorem nibble_even (m : Nat → UInt8) (i : Nat) : nibble m (2 * i) = (m i).toNat % 16 := by
  rw [nibble, if_pos (Nat.mul_mod_right 2 i), Nat.mul_div_cancel_left _ Nat.zero_lt_two]

theorem nibble_odd (m : Nat → UInt8) (i : Nat) : nibble m (2 * i + 1) = (m i).toNat / 16 := by
  rw [nibble, if_neg (by lia), show (2 * i + 1) / 2 = i by lia]

theorem nibble_lt (m : Nat → UInt8) (k : Nat) : nibble m k < 16 := by
  have hbyte := (m (k / 2)).toNat_lt
  unfold nibble
  split
  · exact Nat.mod_lt _ (by decide)
  · lia

theorem byte_eq_iff {m m' : Nat → UInt8} {i j : Nat} : m i = m' j ↔
    nibble m (2 * i) = nibble m' (2 * j) ∧ nibble m (2 * i + 1) = nibble m' (2 * j + 1) := by
  rw [nibble_even, nibble_even, nibble_odd, nibble_odd]
  constructor
  · intro h
    rw [h]
    exact ⟨rfl, rfl⟩
  · rintro ⟨hlow, hhigh⟩
    refine UInt8.toNat_inj.mp ?_
    lia

theorem digit_zero (t : Nat → Nat) (i : Nat) : digit t (3 * i) = t i % 16 := by
  rw [digit, Nat.mul_div_cancel_left _ (by decide), Nat.mul_mod_right, Nat.pow_zero, Nat.div_one]

theorem digit_one (t : Nat → Nat) (i : Nat) : digit t (3 * i + 1) = t i / 16 % 16 := by
  rw [digit, show (3 * i + 1) / 3 = i by lia, show (3 * i + 1) % 3 = 1 by lia, Nat.pow_one]

theorem digit_two (t : Nat → Nat) (i : Nat) : digit t (3 * i + 2) = t i / 256 % 16 := by
  rw [digit, show (3 * i + 2) / 3 = i by lia, show (3 * i + 2) % 3 = 2 by lia,
    show (16 : Nat) ^ 2 = 256 from rfl]

theorem digit_of_nibbles (m : Nat → UInt8) (t : Nat → Nat) {i : Nat}
    (h : t i = nibble m (3 * i) + 16 * nibble m (3 * i + 1) + 256 * nibble m (3 * i + 2)) :
    digit t (3 * i) = nibble m (3 * i) ∧ digit t (3 * i + 1) = nibble m (3 * i + 1) ∧
      digit t (3 * i + 2) = nibble m (3 * i + 2) := by
  have h0 := nibble_lt m (3 * i)
  have h1 := nibble_lt m (3 * i + 1)
  have h2 := nibble_lt m (3 * i + 2)
  rw [digit_zero, digit_one, digit_two, h]
  lia

theorem eq_entry (k : Nat) :
    k = 3 * (k / 3) ∨ k = 3 * (k / 3) + 1 ∨ k = 3 * (k / 3) + 2 := by lia

end Nibble
