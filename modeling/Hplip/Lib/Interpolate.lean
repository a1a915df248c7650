import Mathlib.Algebra.Order.Ring.Int
import Mathlib.Tactic.Common

/-!
# Interpolation in fixed point

A value between two others, with the fraction given in units of `2 ^ -k` and the result rounded
down, and the same along several axes, one after the other, between the corners of a cube.
-/

namespace Interpolate

variable {k : Nat} {a b d lo hi : Int}

/-- `d / 2 ^ k` of the way from `a` to `b`. -/
def lerp (k : Nat) (a b d : Int) : Int := a + ((b - a) * d) >>> k

theorem lerp_zero : lerp k a b 0 = a := by
  rw [lerp, Int.mul_zero, Int.shiftRight_eq_div_pow, Int.zero_ediv, Int.add_zero]

theorem lerp_between (hd : 0 ≤ d) (hd' : d ≤ 2 ^ k) (ha : lo ≤ a ∧ a ≤ hi)
    (hb : lo ≤ b ∧ b ≤ hi) : lo ≤ lerp k a b d ∧ lerp k a b d ≤ hi := by
  have hpos : (0 : Int) < 2 ^ k := Int.pow_pos (by decide)
  rw [lerp, Int.shiftRight_eq_div_pow]
  push_cast
  rcases Int.le_total a b with hab | hba
  · have hlow : 0 ≤ (b - a) * d / 2 ^ k :=
      Int.ediv_nonneg (Int.mul_nonneg (by omega) hd) (Int.le_of_lt hpos)
    have hhigh : (b - a) * d / 2 ^ k ≤ b - a := by
      have hmul := Int.mul_le_mul_of_nonneg_left hd' (show 0 ≤ b - a by omega)
      exact Int.ediv_le_of_le_mul hpos hmul
    omega
  · have hlow : b - a ≤ (b - a) * d / 2 ^ k := by
      have hmul := Int.mul_le_mul_of_nonpos_left (show b - a ≤ 0 by omega) hd'
      exact Int.le_ediv_of_mul_le hpos hmul
    have hhigh : (b - a) * d / 2 ^ k ≤ 0 :=
      Int.ediv_nonpos_of_nonpos_of_neg (Int.mul_nonpos_of_nonpos_of_nonneg (by omega) hd) hpos
    omega

def multilinear (k : Nat) : List Int → (List Bool → Int) → Int
  | [], corner => corner []
  | d :: ds, corner =>
    lerp k (multilinear k ds fun c => corner (false :: c))
      (multilinear k ds fun c => corner (true :: c)) d

/-- **Bounds** of the corners are bounds of the value. -/
theorem multilinear_between {ds : List Int} {corner : List Bool → Int}
    (hds : ∀ d ∈ ds, 0 ≤ d ∧ d ≤ 2 ^ k)
    (hcorner : ∀ c, c.length = ds.length → lo ≤ corner c ∧ corner c ≤ hi) :
    lo ≤ multilinear k ds corner ∧ multilinear k ds corner ≤ hi := by
  induction ds generalizing corner with
  | nil => exact hcorner [] rfl
  | cons d ds ih =>
    obtain ⟨hd, hds⟩ := List.forall_mem_cons.mp hds
    have hend (e : Bool) : lo ≤ multilinear k ds (fun c => corner (e :: c)) ∧
        multilinear k ds (fun c => corner (e :: c)) ≤ hi :=
      ih hds fun c hc => hcorner (e :: c) (congrArg (· + 1) hc)
    exact lerp_between hd.1 hd.2 (hend false) (hend true)

theorem multilinear_zero {ds : List Int} {corner : List Bool → Int} (hds : ∀ d ∈ ds, d = 0) :
    multilinear k ds corner = corner (List.replicate ds.length false) := by
  induction ds generalizing corner with
  | nil => rfl
  | cons d ds ih =>
    obtain ⟨hd, hrest⟩ := List.forall_mem_cons.mp hds
    rw [multilinear, hd, lerp_zero, ih hrest]
    rfl

end Interpolate
