import Hplip.Lib.Bits

/-!
# Rows of packed pixels

A row is a list of bytes whose bits, most significant first, are the bits of its pixels one
after the other; the last byte may hold bits that belong to no pixel.
-/

namespace PackedRow

open Bits

/-- The bytes that hold `n` bits. -/
def bytesFor (n : Nat) : Nat := (n + 7) / 8

theorem bytesFor_bounds (n : Nat) : n ≤ 8 * bytesFor n ∧ 8 * bytesFor n ≤ n + 7 := by
  unfold bytesFor
  lia

def bit (row : List UInt8) (i : Nat) : Option Bool := (bitsOf row)[i]?

/-- The bits of pixel `x`. -/
def pixel (bpp : Nat) (row : List UInt8) (x : Nat) : List Bool :=
  ((bitsOf row).drop (bpp * x)).take bpp

theorem getElem?_pixel (bpp : Nat) (row : List UInt8) (x : Nat) {j : Nat} (hj : j < bpp) :
    (pixel bpp row x)[j]? = bit row (bpp * x + j) := by
  rw [pixel, List.getElem?_take_of_lt hj, List.getElem?_drop, bit]

theorem pixel_eq_iff {bpp : Nat} {row row' : List UInt8} {x x' : Nat} :
    pixel bpp row x = pixel bpp row' x' ↔
      ∀ j < bpp, bit row (bpp * x + j) = bit row' (bpp * x' + j) := by
  constructor
  · intro h j hj
    rw [← getElem?_pixel bpp row x hj, h, getElem?_pixel bpp row' x' hj]
  · intro h
    refine List.ext_getElem? fun j => ?_
    by_cases hj : j < bpp
    · rw [getElem?_pixel bpp row x hj, getElem?_pixel bpp row' x' hj, h j hj]
    · rw [pixel, pixel, List.getElem?_take, List.getElem?_take, if_neg hj, if_neg hj]

/-! ## Parts of a row -/

theorem bitsOf_drop (row : List UInt8) (k : Nat) :
    bitsOf (row.drop k) = (bitsOf row).drop (8 * k) := by
  induction k generalizing row with
  | zero => rfl
  | succ k ih =>
    cases row with
    | nil => simp
    | cons b row =>
      have hbyte : (byteBits b).drop (8 * (k + 1)) = [] :=
        List.drop_eq_nil_of_le (by rw [byteBits_length]; omega)
      rw [List.drop_succ_cons, ih, bitsOf_cons, List.drop_append, byteBits_length, hbyte,
        List.nil_append]
      congr 1

theorem bit_drop (row : List UInt8) (k i : Nat) : bit (row.drop k) i = bit row (8 * k + i) := by
  rw [bit, bitsOf_drop, List.getElem?_drop, bit]

theorem bit_append_left {a b : List UInt8} {i : Nat} (h : i < 8 * a.length) :
    bit (a ++ b) i = bit a i := by
  rw [bit, bitsOf_append, List.getElem?_append_left (by rwa [bitsOf_length]), bit]

theorem bit_append_right {a b : List UInt8} {i : Nat} (h : 8 * a.length ≤ i) :
    bit (a ++ b) i = bit b (i - 8 * a.length) := by
  rw [bit, bitsOf_append, List.getElem?_append_right (by rwa [bitsOf_length]), bitsOf_length, bit]

theorem bit_take {row : List UInt8} {k i : Nat} (h : i < 8 * k) :
    bit (row.take k) i = bit row i := by
  by_cases hk : k ≤ row.length
  · have hlen : (row.take k).length = k := List.length_take_of_le hk
    conv_rhs => rw [← List.take_append_drop k row]
    rw [bit_append_left (by rwa [hlen])]
  · rw [List.take_of_length_le (by omega)]

theorem bit_eq_testBit {row : List UInt8} {x : Nat} (hx : x / 8 < row.length) :
    bit row x = some (row[x / 8].toNat.testBit (7 - x % 8)) := by
  have hsplit : row = row.take (x / 8) ++ row[x / 8] :: row.drop (x / 8 + 1) := by
    rw [List.getElem_cons_drop, List.take_append_drop]
  have htake : (row.take (x / 8)).length = x / 8 := List.length_take_of_le (Nat.le_of_lt hx)
  have hplace : x - 8 * (x / 8) = x % 8 := by lia
  have hlt := Nat.mod_lt x (show 0 < 8 by decide)
  conv_lhs => rw [hsplit]
  rw [bit_append_right (by rw [htake]; lia), htake, bit, bitsOf_cons, hplace,
    List.getElem?_append_left (by rwa [byteBits_length]), byteBits, natBits_getElem? _ hlt]

theorem bit_replicate {k i : Nat} (b : UInt8) (h : i < 8 * k) :
    bit (List.replicate k b) i = (byteBits b)[i % 8]? := by
  induction k generalizing i with
  | zero => lia
  | succ k ih =>
    rw [List.replicate_succ, bit, bitsOf_cons]
    by_cases hi : i < 8
    · rw [List.getElem?_append_left (by rwa [byteBits_length]), Nat.mod_eq_of_lt hi]
    · have hrest := ih (i := i - 8) (by lia)
      rw [List.getElem?_append_right (by rw [byteBits_length]; lia), byteBits_length]
      rw [bit] at hrest
      rw [hrest]
      congr 1
      lia

/-! ## Pieces of one length -/

section Pieces

universe u

variable {α : Type u} {b : Nat} {ls : List (List α)}

theorem flatten_length (hlen : ∀ l ∈ ls, l.length = b) :
    ls.flatten.length = b * ls.length := by
  induction ls with
  | nil => rfl
  | cons l ls ih =>
    rw [List.flatten_cons, List.length_append, hlen l List.mem_cons_self,
      ih fun l' hl' => hlen l' (List.mem_cons_of_mem _ hl'), List.length_cons, Nat.mul_succ,
      Nat.add_comm]

theorem flatten_getD (hlen : ∀ l ∈ ls, l.length = b)
    {x j : Nat} (hx : x < ls.length) (hj : j < b) (d : α) :
    ls.flatten.getD (b * x + j) d = (ls.getD x []).getD j d := by
  induction ls generalizing x with
  | nil => exact absurd hx (Nat.not_lt_zero x)
  | cons l ls ih =>
    have hl : l.length = b := hlen l List.mem_cons_self
    rw [List.flatten_cons]
    cases x with
    | zero =>
      rw [Nat.mul_zero, Nat.zero_add, List.getD_append _ _ _ _ (by lia), List.getD_cons_zero]
    | succ x =>
      rw [List.getD_append_right _ _ _ _ (by rw [Nat.mul_succ]; lia), List.getD_cons_succ,
        ← ih (fun l' hl' => hlen l' (List.mem_cons_of_mem _ hl')) (Nat.lt_of_succ_lt_succ hx), hl,
        Nat.mul_succ]
      congr 1
      lia

theorem getD_map_range (f : Nat → α) (d : α) {n x : Nat} (hx : x < n) :
    ((List.range n).map f).getD x d = f x := by
  rw [List.getD_eq_getElem?_getD, List.getElem?_map, List.getElem?_range hx]
  rfl

end Pieces

/-! ## A row with one bit -/

/-- A row of `k` bytes in which bit `i` alone is set. -/
def oneBit (k i : Nat) : List UInt8 :=
  List.replicate (i / 8) 0 ++ UInt8.ofNat (2 ^ (7 - i % 8)) :: List.replicate (k - i / 8 - 1) 0

theorem oneBit_length {k i : Nat} (h : i < 8 * k) : (oneBit k i).length = k := by
  simp only [oneBit, List.length_append, List.length_replicate, List.length_cons]
  lia

theorem byteBits_one : ∀ r < 8, ∀ s < 8,
    (byteBits (UInt8.ofNat (2 ^ (7 - r))))[s]? = some (decide (s = r)) := by
  decide

theorem bit_oneBit {k i j : Nat} (hj : j < 8 * k) :
    bit (oneBit k i) j = some (decide (j = i)) := by
  have hzero : ∀ s, s < 8 → (byteBits 0)[s]? = some false := by decide
  unfold oneBit
  by_cases hbefore : j < 8 * (i / 8)
  · rw [bit_append_left (by rwa [List.length_replicate]), bit_replicate 0 hbefore,
      hzero _ (Nat.mod_lt _ (by decide)), decide_eq_false (by lia)]
  rw [bit_append_right (by rw [List.length_replicate]; lia), List.length_replicate,
    ← List.singleton_append]
  by_cases hin : j < 8 * (i / 8) + 8
  · rw [bit_append_left (by rw [List.length_singleton]; lia), bit, bitsOf_cons, bitsOf_nil,
      List.append_nil, byteBits_one _ (Nat.mod_lt _ (by decide)) _ (by lia)]
    congr 1
    exact decide_eq_decide.mpr (by lia)
  · rw [bit_append_right (by rw [List.length_singleton]; lia), List.length_singleton,
      bit_replicate 0 (by lia), hzero _ (Nat.mod_lt _ (by decide)),
      decide_eq_false (by lia)]

end PackedRow
