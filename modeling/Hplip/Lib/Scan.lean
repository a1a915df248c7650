import Mathlib.Data.Nat.Basic
import Mathlib.Order.Basic
import Mathlib.Tactic.ByContra

/-!
# Scanning a row for a change of colour

A row of a bi-level image is a function from positions to colours, looked at up to its
width `n`; the end of the row counts as a change. `next p c n i` is the first position from
`i` on that does not have the colour `c`.
-/

namespace Scan

variable {p : Nat → Bool} {c : Bool} {n i j k : Nat}

/-- The first position from `i` on without the colour `c`, at most `n`. -/
def next (p : Nat → Bool) (c : Bool) (n i : Nat) : Nat :=
  if i < n then
    if p i = c then next p c n (i + 1) else i
  else n
termination_by n - i

theorem next_of_ge (h : n ≤ i) : next p c n i = n := by
  rw [next, if_neg (Nat.not_lt.mpr h)]

theorem next_of_eq (h : i < n) (hc : p i = c) : next p c n i = next p c n (i + 1) := by
  rw [next, if_pos h, if_pos hc]

theorem next_of_ne (h : i < n) (hc : p i ≠ c) : next p c n i = i := by
  rw [next, if_pos h, if_neg hc]

theorem scan_induction {motive : Nat → Prop} (n : Nat) (hend : ∀ i, n ≤ i → motive i)
    (hstep : ∀ i, i < n → motive (i + 1) → motive i) (i : Nat) : motive i := by
  by_cases h : i < n
  · exact hstep i h (scan_induction n hend hstep (i + 1))
  · exact hend i (Nat.not_lt.mp h)
termination_by n - i

theorem next_le : next p c n i ≤ n := by
  induction i using scan_induction n with
  | hend i h => rw [next_of_ge h]
  | hstep i h ih =>
    by_cases hc : p i = c
    · rwa [next_of_eq h hc]
    · rw [next_of_ne h hc]
      exact Nat.le_of_lt h

theorem le_next (h : i ≤ n) : i ≤ next p c n i := by
  induction i using scan_induction n with
  | hend i h' => rwa [next_of_ge h']
  | hstep i h' ih =>
    by_cases hc : p i = c
    · rw [next_of_eq h' hc]
      exact Nat.le_of_succ_le (ih h')
    · rw [next_of_ne h' hc]

theorem eq_of_lt_next (hij : i ≤ j) (hj : j < next p c n i) : p j = c := by
  induction i using scan_induction n with
  | hend i h =>
    rw [next_of_ge h] at hj
    omega
  | hstep i h ih =>
    by_cases hc : p i = c
    · rcases Nat.eq_or_lt_of_le hij with rfl | hlt
      · exact hc
      · rw [next_of_eq h hc] at hj
        exact ih hlt hj
    · rw [next_of_ne h hc] at hj
      omega

theorem next_ne (h : next p c n i < n) : p (next p c n i) ≠ c := by
  induction i using scan_induction n with
  | hend i h' =>
    rw [next_of_ge h'] at h
    exact absurd h (Nat.lt_irrefl n)
  | hstep i h' ih =>
    by_cases hc : p i = c
    · rw [next_of_eq h' hc] at h ⊢
      exact ih h
    · rwa [next_of_ne h' hc]

theorem next_eq_not (h : next p c n i < n) : p (next p c n i) = !c :=
  Bool.eq_not.mpr (next_ne h)

theorem next_eq (hij : i ≤ j) (hjn : j ≤ n) (hmem : ∀ k, i ≤ k → k < j → p k = c)
    (hj : j < n → p j ≠ c) : next p c n i = j := by
  by_contra hne
  rcases Nat.lt_or_gt_of_ne hne with hlt | hgt
  · have hle : i ≤ next p c n i := le_next (Nat.le_trans hij hjn)
    exact next_ne (Nat.lt_of_lt_of_le hlt hjn) (hmem _ hle hlt)
  · exact hj (Nat.lt_of_lt_of_le hgt next_le) (eq_of_lt_next hij hgt)

theorem next_next (hij : i ≤ j) (hj : j ≤ next p c n i) : next p c n j = next p c n i :=
  next_eq hj next_le (fun _ hk hlt => eq_of_lt_next (Nat.le_trans hij hk) hlt) fun h => next_ne h

theorem next_self (h : i < n → p i = !c) (hi : i ≤ n) : next p c n i = i :=
  next_eq (Nat.le_refl i) hi (fun _ h₁ h₂ => absurd h₁ (Nat.not_le.mpr h₂)) fun hlt => by
    rw [h hlt]
    cases c <;> decide

theorem next_succ (hi : i < n) (hc : p i = c) : next p c n (i + 1) = next p c n i :=
  (next_of_eq hi hc).symm

theorem lt_next (hi : i < n) (hc : p i = c) : i < next p c n i := by
  rw [next_of_eq hi hc]
  exact le_next hi

theorem next_congr {q : Nat → Bool} (h : ∀ k, i ≤ k → k < n → p k = q k) :
    next p c n i = next q c n i := by
  induction i using scan_induction n with
  | hend i h' => rw [next_of_ge h', next_of_ge h']
  | hstep i h' ih =>
    have hi := h i (Nat.le_refl i) h'
    have hnext := ih fun k hk hkn => h k (Nat.le_of_succ_le hk) hkn
    by_cases hc : p i = c
    · rw [next_of_eq h' hc, next_of_eq h' (hi ▸ hc), hnext]
    · rw [next_of_ne h' hc, next_of_ne h' (hi ▸ hc)]

/-! ## The reference row

`start` says that the position is the imaginary pixel before the row, which has the colour
`c`; the search starts at 0 then. Otherwise it goes through the first pixel of the colour `c`
at or behind the position. -/

/-- The first changing element of `ref` to the right of `a0` and of another colour than `c`. -/
def b1 (ref : Nat → Bool) (n : Nat) (start : Bool) (c : Bool) (a0 : Nat) : Nat :=
  match start with
  | true => next ref c n a0
  | false => next ref c n (next ref (!c) n a0 + 1)

/-- The changing element of `ref` behind `b`. -/
def b2 (ref : Nat → Bool) (n : Nat) (c : Bool) (b : Nat) : Nat :=
  next ref (!c) n (b + 1)

variable {ref : Nat → Bool} {start : Bool} {a0 a b : Nat}

theorem b1_le : b1 ref n start c a0 ≤ n := by
  cases start <;> exact next_le

theorem b2_le : b2 ref n c b ≤ n := next_le

theorem lt_b2 (h : b < n) : b < b2 ref n c b := le_next h

theorem le_b2 (h : b ≤ n) : b ≤ b2 ref n c b := by
  rcases Nat.lt_or_ge b n with hlt | hge
  · exact Nat.le_of_lt (lt_b2 hlt)
  · rw [b2, next_of_ge (Nat.le_succ_of_le hge)]
    exact h

theorem le_b1 (h : a0 ≤ n) : a0 ≤ b1 ref n start c a0 := by
  cases start with
  | true => exact le_next h
  | false =>
    have h₁ : a0 ≤ next ref (!c) n a0 := le_next h
    rcases Nat.lt_or_ge (next ref (!c) n a0) n with hlt | hge
    · exact Nat.le_trans (Nat.le_succ_of_le h₁) (le_next hlt)
    · rw [b1, next_of_ge (Nat.le_succ_of_le hge)]
      exact h

theorem lt_b1 (h : a0 < n) : a0 < b1 ref n false c a0 := by
  have h₁ : a0 ≤ next ref (!c) n a0 := le_next (Nat.le_of_lt h)
  rcases Nat.lt_or_ge (next ref (!c) n a0) n with hlt | hge
  · exact Nat.lt_of_le_of_lt h₁ (le_next hlt)
  · rw [b1, next_of_ge (Nat.le_succ_of_le hge)]
    exact h

theorem b1_eq_not (h : b1 ref n start c a0 < n) : ref (b1 ref n start c a0) = !c := by
  cases start <;> exact next_eq_not h

theorem b2_eq (h : b2 ref n c b < n) : ref (b2 ref n c b) = c := by
  have := next_eq_not h
  rwa [Bool.not_not] at this

theorem eq_not_of_lt_b2 (hb : b < j) (hj : j < b2 ref n c b) : ref j = !c :=
  eq_of_lt_next hb hj

theorem b1_of_eq (h : a0 < n → ref a0 = c) (hn : a0 ≤ n) :
    b1 ref n false c a0 = next ref c n (a0 + 1) := by
  rw [b1, next_self (fun hlt => by rw [h hlt, Bool.not_not]) hn]

theorem eq_of_succ_eq_b1 (h : a0 ≤ a) (hb : a + 1 = b1 ref n start c a0)
    (hn : b1 ref n start c a0 < n) : ref a = c := by
  cases start with
  | true => exact eq_of_lt_next h (Nat.lt_of_succ_le (Nat.le_of_eq hb))
  | false =>
    have hb : a + 1 = next ref c n (next ref (!c) n a0 + 1) := hb
    rcases Nat.lt_or_ge (next ref (!c) n a0) n with hlt | hge
    · have hle : next ref (!c) n a0 + 1 ≤ a + 1 := hb ▸ le_next hlt
      rcases Nat.eq_or_lt_of_le (Nat.le_of_succ_le_succ hle) with rfl | hgt
      · rw [next_eq_not hlt, Bool.not_not]
      · exact eq_of_lt_next hgt (Nat.lt_of_succ_le (Nat.le_of_eq hb))
    · rw [b1, next_of_ge (Nat.le_succ_of_le hge)] at hn
      exact absurd hn (Nat.lt_irrefl n)

/-! ### Where the next element is

The coded row goes on at `a`, in the other colour after a change. -/

theorem b1_vertical (h : a0 ≤ a) (hab : a ≤ b1 ref n start c a0)
    (hba : b1 ref n start c a0 ≤ a + 1) :
    b1 ref n false (!c) a = b2 ref n c (b1 ref n start c a0) := by
  rcases Nat.lt_or_ge (b1 ref n start c a0) n with hlt | hge
  · rw [b2, b1, Bool.not_not]
    suffices hb0 : next ref c n a = b1 ref n start c a0 by rw [hb0]
    rcases Nat.eq_or_lt_of_le hab with heq | hgt
    · rw [heq]
      exact next_self (fun hn => b1_eq_not hn) b1_le
    · have hsucc : a + 1 = b1 ref n start c a0 := Nat.le_antisymm hgt hba
      rw [next_of_eq (Nat.lt_trans hgt hlt) (eq_of_succ_eq_b1 h hsucc hlt), hsucc]
      exact next_self (fun hn => b1_eq_not hn) b1_le
  · have hn : n ≤ a + 1 := Nat.le_trans hge hba
    have hnext : n ≤ next ref c n a + 1 := by
      rcases Nat.lt_or_ge a n with hlt | hge'
      · exact Nat.le_trans hn (Nat.succ_le_succ (le_next (Nat.le_of_lt hlt)))
      · rw [next_of_ge hge']
        exact Nat.le_succ n
    rw [b2, b1, Bool.not_not, next_of_ge hnext, next_of_ge (Nat.le_succ_of_le hge)]

theorem b1_between (hba : b1 ref n start c a0 ≤ a)
    (hab : a < b2 ref n c (b1 ref n start c a0)) :
    b1 ref n false (!c) a = b2 ref n c (b1 ref n start c a0) := by
  have hn : a < n := Nat.lt_of_lt_of_le hab b2_le
  have hcol : ref a = !c := by
    rcases Nat.eq_or_lt_of_le hba with rfl | hlt
    · exact b1_eq_not hn
    · exact eq_not_of_lt_b2 hlt hab
  rw [b1_of_eq (fun _ => hcol) (Nat.le_of_lt hn)]
  exact next_next (Nat.succ_le_succ hba) hab

theorem b1_pass (b : Nat) :
    b1 ref n false c (b2 ref n c b) = next ref c n (b2 ref n c b + 1) :=
  b1_of_eq (fun h => b2_eq h) b2_le

theorem b1_short (h : a0 ≤ a) (hab : a < b1 ref n start c a0) :
    b1 ref n false c a = b1 ref n start c a0 := by
  have hn : a < n := Nat.lt_of_lt_of_le hab b1_le
  cases start with
  | true =>
    have hcol : ref a = c := eq_of_lt_next h hab
    rw [b1_of_eq (fun _ => hcol) (Nat.le_of_lt hn)]
    exact next_next (Nat.le_succ_of_le h) hab
  | false =>
    rcases Nat.lt_or_ge (next ref (!c) n a0) a with hlt | hge
    · have hcol : ref a = c := eq_of_lt_next hlt hab
      rw [b1_of_eq (fun _ => hcol) (Nat.le_of_lt hn)]
      exact next_next (Nat.le_succ_of_le hlt) hab
    · rw [b1, b1, next_next h hge]

theorem b1_beyond (hba : b1 ref n start c a0 ≤ a)
    (hab : a ≤ b2 ref n c (b1 ref n start c a0)) :
    b1 ref n false c a = next ref c n (b2 ref n c (b1 ref n start c a0) + 1) := by
  rw [b1]
  congr 2
  rcases Nat.eq_or_lt_of_le hba with rfl | hlt
  · rcases Nat.lt_or_ge (b1 ref n start c a0) n with hn | hn
    · rw [b2, next_succ hn (b1_eq_not hn)]
    · rw [b2, next_of_ge hn, next_of_ge (Nat.le_succ_of_le hn)]
  · exact next_next (Nat.succ_le_of_lt hlt) hab

end Scan
