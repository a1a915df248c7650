import Mathlib.Data.Nat.Bitwise
import Mathlib.Data.Nat.Size
import Mathlib.Tactic.Ring
import Mathlib.Data.List.Basic

/-!
# Bit strings, most significant bit first

A bit stream is a list of booleans. `natBits k n` are the `k` low bits of a number, the
highest of them first, and `bitsOf` the bits of a list of bytes.
-/

namespace Bits

/-! ## Fields of a number -/

/-- The `k` low bits of `n`, the highest first. -/
def natBits : Nat → Nat → List Bool
  | 0, _ => []
  | k + 1, n => n.testBit k :: natBits k n

@[simp] theorem natBits_zero_left (n : Nat) : natBits 0 n = [] := rfl

theorem natBits_succ (k n : Nat) : natBits (k + 1) n = n.testBit k :: natBits k n := rfl

@[simp] theorem natBits_length (k n : Nat) : (natBits k n).length = k := by
  induction k with
  | zero => rfl
  | succ k ih => simp [natBits, ih]

theorem natBits_getElem? {k i : Nat} (n : Nat) (hi : i < k) :
    (natBits k n)[i]? = some (n.testBit (k - 1 - i)) := by
  induction k generalizing i with
  | zero => exact absurd hi (Nat.not_lt_zero i)
  | succ k ih =>
    cases i with
    | zero => rfl
    | succ i =>
      rw [natBits_succ, List.getElem?_cons_succ, ih (Nat.lt_of_succ_lt_succ hi)]
      congr 2
      omega

theorem natBits_congr {k m n : Nat} (h : ∀ i < k, m.testBit i = n.testBit i) :
    natBits k m = natBits k n := by
  induction k with
  | zero => rfl
  | succ k ih =>
    rw [natBits, natBits, h k (Nat.lt_succ_self k), ih fun i hi => h i (Nat.lt_succ_of_lt hi)]

theorem natBits_add (j k n : Nat) :
    natBits (j + k) n = natBits j (n >>> k) ++ natBits k n := by
  induction j with
  | zero => simp
  | succ j ih =>
    rw [Nat.add_right_comm, natBits, ih, natBits, Nat.testBit_shiftRight, Nat.add_comm k j,
      List.cons_append]

theorem natBits_mod {j k : Nat} (h : k ≤ j) (n : Nat) :
    natBits k (n % 2 ^ j) = natBits k n :=
  natBits_congr fun i hi => by
    rw [Nat.testBit_mod_two_pow, decide_eq_true (Nat.lt_of_lt_of_le hi h), Bool.true_and]

@[simp] theorem natBits_of_zero (k : Nat) : natBits k 0 = List.replicate k false := by
  induction k with
  | zero => rfl
  | succ k ih => rw [natBits, ih, Nat.zero_testBit, List.replicate_succ]

theorem natBits_ones {k n : Nat} (h : ∀ i < k, n.testBit i = true) :
    natBits k n = List.replicate k true := by
  induction k with
  | zero => rfl
  | succ k ih =>
    rw [natBits, h k (Nat.lt_succ_self k), ih fun i hi => h i (Nat.lt_succ_of_lt hi),
      List.replicate_succ]

@[simp] theorem natBits_two_pow_sub_one (k : Nat) :
    natBits k (2 ^ k - 1) = List.replicate k true :=
  natBits_ones fun i hi => by rw [Nat.testBit_two_pow_sub_one, decide_eq_true hi]

theorem natBits_append {j k m n : Nat} (hn : n < 2 ^ k) :
    natBits (j + k) (m <<< k ||| n) = natBits j m ++ natBits k n := by
  have hlow : ∀ i, n.testBit (k + i) = false := fun i =>
    Nat.testBit_lt_two_pow (Nat.lt_of_lt_of_le hn (Nat.pow_le_pow_right (by decide) (by omega)))
  rw [natBits_add]
  congr 1
  · refine natBits_congr fun i _ => ?_
    rw [Nat.testBit_shiftRight, Nat.testBit_or, hlow i, Bool.or_false, Nat.testBit_shiftLeft]
    simp
  · refine natBits_congr fun i hi => ?_
    rw [Nat.testBit_or, Nat.testBit_shiftLeft, decide_eq_false (by omega), Bool.false_and,
      Bool.false_or]

/-! ## The number of a bit string -/

/-- The number that `l` spells in binary. -/
def ofBits (l : List Bool) : Nat := l.foldl (fun n b => 2 * n + b.toNat) 0

@[simp] theorem ofBits_nil : ofBits [] = 0 := rfl

theorem foldl_eq_ofBits (l : List Bool) (n : Nat) :
    l.foldl (fun n b => 2 * n + b.toNat) n = n * 2 ^ l.length + ofBits l := by
  induction l generalizing n with
  | nil => simp
  | cons b l ih =>
    rw [ofBits, List.foldl_cons, List.foldl_cons, ih, ih (2 * 0 + _), List.length_cons, pow_succ]
    ring

theorem ofBits_cons (b : Bool) (l : List Bool) :
    ofBits (b :: l) = b.toNat * 2 ^ l.length + ofBits l := by
  rw [ofBits, List.foldl_cons, foldl_eq_ofBits]
  simp

theorem ofBits_append (l l' : List Bool) :
    ofBits (l ++ l') = ofBits l * 2 ^ l'.length + ofBits l' := by
  rw [ofBits, List.foldl_append, foldl_eq_ofBits]
  rfl

theorem ofBits_lt (l : List Bool) : ofBits l < 2 ^ l.length := by
  induction l with
  | nil => exact Nat.one_pos
  | cons b l ih =>
    rw [ofBits_cons, List.length_cons, pow_succ]
    have hb : b.toNat ≤ 1 := Bool.toNat_le b
    have hmul : b.toNat * 2 ^ l.length ≤ 1 * 2 ^ l.length := Nat.mul_le_mul_right _ hb
    lia

theorem ofBits_natBits (k n : Nat) : ofBits (natBits k n) = n % 2 ^ k := by
  induction k with
  | zero => rw [natBits, ofBits_nil, pow_zero, Nat.mod_one]
  | succ k ih =>
    rw [natBits, ofBits_cons, natBits_length, ih, Nat.mod_pow_succ, Nat.testBit_eq_decide_div_mod_eq]
    rcases Nat.mod_two_eq_zero_or_one (n / 2 ^ k) with h | h <;> simp [h, Nat.add_comm]

theorem natBits_ofBits (l : List Bool) : natBits l.length (ofBits l) = l := by
  induction l with
  | nil => rfl
  | cons b l ih =>
    have hlt := ofBits_lt l
    have hshape : ofBits (b :: l) = b.toNat <<< l.length ||| ofBits l := by
      rw [ofBits_cons, ← Nat.shiftLeft_eq, Nat.shiftLeft_add_eq_or_of_lt hlt]
    rw [hshape, List.length_cons, Nat.add_comm, natBits_append hlt, ih]
    cases b <;> rfl

theorem natBits_inj {k m n : Nat} (hm : m < 2 ^ k) (hn : n < 2 ^ k)
    (h : natBits k m = natBits k n) : m = n := by
  have hnat := congrArg ofBits h
  rwa [ofBits_natBits, ofBits_natBits, Nat.mod_eq_of_lt hm, Nat.mod_eq_of_lt hn] at hnat

@[simp] theorem ofBits_replicate_false (k : Nat) : ofBits (List.replicate k false) = 0 := by
  rw [← natBits_of_zero, ofBits_natBits, Nat.zero_mod]

/-! ## Bytes -/

def byteBits (b : UInt8) : List Bool := natBits 8 b.toNat

@[simp] theorem byteBits_length (b : UInt8) : (byteBits b).length = 8 := natBits_length 8 _

def bitsOf (l : List UInt8) : List Bool := l.flatMap byteBits

@[simp] theorem bitsOf_nil : bitsOf [] = [] := rfl

@[simp] theorem bitsOf_cons (b : UInt8) (l : List UInt8) :
    bitsOf (b :: l) = byteBits b ++ bitsOf l := by
  simp [bitsOf]

@[simp] theorem bitsOf_append (l l' : List UInt8) : bitsOf (l ++ l') = bitsOf l ++ bitsOf l' := by
  simp [bitsOf]

@[simp] theorem bitsOf_length (l : List UInt8) : (bitsOf l).length = 8 * l.length := by
  induction l with
  | nil => rfl
  | cons b l ih =>
    rw [bitsOf_cons, List.length_append, ih, byteBits_length, List.length_cons]
    omega

@[simp] theorem byteBits_zero : byteBits 0 = List.replicate 8 false := by decide

@[simp] theorem bitsOf_replicate_zero (k : Nat) :
    bitsOf (List.replicate k 0) = List.replicate (8 * k) false := by
  induction k with
  | zero => rfl
  | succ k ih =>
    rw [List.replicate_succ, bitsOf_cons, ih, byteBits_zero, List.replicate_append_replicate]
    congr 1
    omega

theorem and_mask_ne_zero {b m : UInt8} {k : Nat} (hm : m.toNat = 2 ^ k) :
    b &&& m ≠ 0 ↔ b.toNat.testBit k = true := by
  rw [Ne, ← UInt8.toNat_inj, UInt8.toNat_and, hm, Nat.and_two_pow]
  cases b.toNat.testBit k <;> simp

theorem byteBits_ofNat (n : Nat) : byteBits (UInt8.ofNat n) = natBits 8 n := by
  rw [byteBits, UInt8.toNat_ofNat', natBits_mod (Nat.le_refl 8)]

end Bits
