import Hplip.Lib.Scan
import Mathlib.Data.Bool.Basic
import Mathlib.Tactic.Common

/-!
# Coding a bi-level row

A row is coded as its runs, or in two dimensions as modes that refer to the row above. The
state of a two-dimensional coding is the position `a0` up to which the row is coded, whether
that is still the imaginary white pixel before the row, and the colour `c` of the coded side.
-/

namespace RowCoding

open Scan

variable {row ref : Nat → Bool} {n : Nat} {start c : Bool} {a0 : Nat}

/-! ## Runs -/

/-- The runs of a row from position `i` on, the first in the colour `c`. -/
inductive Runs (row : Nat → Bool) (n : Nat) : Bool → Nat → List Nat → Prop
  | done {c : Bool} {i : Nat} (h : n ≤ i) : Runs row n c i []
  | step {c : Bool} {i : Nat} {rs : List Nat} (h : i < n)
      (hrs : Runs row n (!c) (next row c n i) rs) : Runs row n c i ((next row c n i - i) :: rs)

/-! ## Modes -/

inductive Mode
  | pass
  /-- The distance from `b1` to `a1`, at most 3 to either side. -/
  | vertical (d : Int)
  | horizontal (run₁ run₂ : Nat)
  deriving DecidableEq, Repr

def a1 (row : Nat → Bool) (n : Nat) (c : Bool) (a0 : Nat) : Nat := next row c n a0

def a2 (row : Nat → Bool) (n : Nat) (c : Bool) (a : Nat) : Nat := next row (!c) n (a + 1)

def modeAt (row ref : Nat → Bool) (n : Nat) (start c : Bool) (a0 : Nat) : Mode × Nat × Bool :=
  let a1 := a1 row n c a0
  let b1 := b1 ref n start c a0
  let b2 := b2 ref n c b1
  if b2 < a1 then (.pass, b2, c)
  else if -3 ≤ (a1 : Int) - b1 ∧ (a1 : Int) - b1 ≤ 3 then (.vertical ((a1 : Int) - b1), a1, !c)
  else (.horizontal (a1 - a0) (a2 row n c a1 - a1), a2 row n c a1, c)

/-- The modes from a state on, each with the colour it is coded in. The first one is needed
even for a row that has no change. -/
inductive Modes (row ref : Nat → Bool) (n : Nat) : Bool → Bool → Nat → List (Bool × Mode) → Prop
  | done {c : Bool} {a0 : Nat} (h : n ≤ a0) : Modes row ref n false c a0 []
  | step {start c : Bool} {a0 : Nat} {ms : List (Bool × Mode)} (h : start = true ∨ a0 < n)
      (hms : Modes row ref n false (modeAt row ref n start c a0).2.2
        (modeAt row ref n start c a0).2.1 ms) :
      Modes row ref n start c a0 ((c, (modeAt row ref n start c a0).1) :: ms)

/-! ### The three modes -/

theorem modeAt_pass (h : b2 ref n c (b1 ref n start c a0) < a1 row n c a0) :
    modeAt row ref n start c a0 = (.pass, b2 ref n c (b1 ref n start c a0), c) := by
  rw [modeAt]
  exact if_pos h

theorem modeAt_vertical (h : a1 row n c a0 ≤ b2 ref n c (b1 ref n start c a0))
    (hd : -3 ≤ (a1 row n c a0 : Int) - b1 ref n start c a0 ∧
      (a1 row n c a0 : Int) - b1 ref n start c a0 ≤ 3) :
    modeAt row ref n start c a0
      = (.vertical ((a1 row n c a0 : Int) - b1 ref n start c a0), a1 row n c a0, !c) := by
  rw [modeAt]
  rw [if_neg (Nat.not_lt.mpr h), if_pos hd]

theorem modeAt_horizontal (h : a1 row n c a0 ≤ b2 ref n c (b1 ref n start c a0))
    (hd : ¬ (-3 ≤ (a1 row n c a0 : Int) - b1 ref n start c a0 ∧
      (a1 row n c a0 : Int) - b1 ref n start c a0 ≤ 3)) :
    modeAt row ref n start c a0
      = (.horizontal (a1 row n c a0 - a0) (a2 row n c (a1 row n c a0) - a1 row n c a0),
          a2 row n c (a1 row n c a0), c) := by
  rw [modeAt]
  rw [if_neg (Nat.not_lt.mpr h), if_neg hd]

theorem a1_le : a1 row n c a0 ≤ n := next_le

theorem le_a1 (h : a0 ≤ n) : a0 ≤ a1 row n c a0 := le_next h

theorem le_a2 {a : Nat} (h : a ≤ n) : a ≤ a2 row n c a := by
  rcases Nat.lt_or_ge a n with hlt | hge
  · exact Nat.le_of_succ_le (le_next hlt)
  · rw [a2, next_of_ge (Nat.le_succ_of_le hge)]
    exact h

def Coloured (row : Nat → Bool) (n : Nat) (start c : Bool) (a0 : Nat) : Prop :=
  a0 ≤ n ∧ (start = false → a0 < n → row a0 = c)

theorem modeAt_coloured (ref : Nat → Bool) (h : Coloured row n start c a0) :
    Coloured row n false (modeAt row ref n start c a0).2.2
      (modeAt row ref n start c a0).2.1 := by
  rcases Nat.lt_or_ge (b2 ref n c (b1 ref n start c a0)) (a1 row n c a0) with hpass | hge
  · rw [modeAt_pass hpass]
    exact ⟨b2_le, fun _ _ =>
      eq_of_lt_next (Nat.le_trans (le_b1 h.1) (le_b2 b1_le)) hpass⟩
  · by_cases hd : -3 ≤ (a1 row n c a0 : Int) - b1 ref n start c a0 ∧
        (a1 row n c a0 : Int) - b1 ref n start c a0 ≤ 3
    · rw [modeAt_vertical hge hd]
      exact ⟨next_le, fun _ hlt => next_eq_not hlt⟩
    · rw [modeAt_horizontal hge hd]
      refine ⟨next_le, fun _ hlt => ?_⟩
      have := next_eq_not hlt
      rwa [Bool.not_not] at this

theorem modeAt_progress (ref : Nat → Bool) (h : Coloured row n start c a0) (hlt : start = true ∨ a0 < n) :
    a0 ≤ (modeAt row ref n start c a0).2.1 ∧
      (start = false → a0 < (modeAt row ref n start c a0).2.1) := by
  have hb1 : a0 ≤ b1 ref n start c a0 := le_b1 h.1
  rcases Nat.lt_or_ge (b2 ref n c (b1 ref n start c a0)) (a1 row n c a0) with hpass | hge
  · rw [modeAt_pass hpass]
    refine ⟨Nat.le_trans hb1 (le_b2 b1_le), fun hstart => ?_⟩
    subst hstart
    have hn : a0 < n := by simpa using hlt
    exact Nat.lt_of_lt_of_le (lt_b1 hn) (le_b2 b1_le)
  · by_cases hd : -3 ≤ (a1 row n c a0 : Int) - b1 ref n start c a0 ∧
        (a1 row n c a0 : Int) - b1 ref n start c a0 ≤ 3
    · rw [modeAt_vertical hge hd]
      refine ⟨le_a1 h.1, fun hstart => ?_⟩
      have hn : a0 < n := by simpa [hstart] using hlt
      exact lt_next hn (h.2 hstart hn)
    · rw [modeAt_horizontal hge hd]
      refine ⟨Nat.le_trans (le_a1 h.1) (le_a2 a1_le), fun hstart => ?_⟩
      have hn : a0 < n := by simpa [hstart] using hlt
      exact Nat.lt_of_lt_of_le (lt_next hn (h.2 hstart hn)) (le_a2 a1_le)

end RowCoding
