import Hplip.Lib.CInt

/-!
# `strtol` in base 10

White space, a sign and digits; what is too large becomes the largest `long`. A string is the
list of its characters, the NUL behind them is not in it.

`strtol_digits` is the case of digits that something else follows.
-/

namespace Strtol

def isSpace (c : UInt8) : Bool := c == 32 || (9 ≤ c && c ≤ 13)

def isDigit (c : UInt8) : Bool := 48 ≤ c && c ≤ 57

def value (ds : List UInt8) : Nat := ds.foldl (fun n c => 10 * n + (c.toNat - 48)) 0

/-- The `long` nearest to a number. -/
def clamp (n : Int) : Int := max (-2 ^ 63) (min n (2 ^ 63 - 1))

def sign : List UInt8 → Bool × List UInt8
  | [] => (false, [])
  | c :: s => if c = 45 then (true, s) else if c = 43 then (false, s) else (false, c :: s)

/-- `strtol(s, &tail, 10)`: the number and `tail`, which is `s` if there are no digits. -/
def strtol (s : List UInt8) : Int × List UInt8 :=
  let (negative, t) := sign (s.dropWhile isSpace)
  let ds := t.takeWhile isDigit
  if ds = [] then (0, s)
  else (clamp (if negative then -value ds else value ds), t.dropWhile isDigit)

theorem clamp_of_le {n : Nat} (h : n < 2 ^ 63) : clamp n = n := by
  unfold clamp
  lia

theorem isDigit_cases {c : UInt8} (h : isDigit c = true) :
    isSpace c = false ∧ c ≠ 45 ∧ c ≠ 43 := by
  have hrange : 48 ≤ c.toNat ∧ c.toNat ≤ 57 := by
    simpa [isDigit, UInt8.le_iff_toNat_le] using h
  refine ⟨?_, ?_, ?_⟩
  · simp only [isSpace, Bool.or_eq_false_iff, beq_eq_false_iff_ne, Bool.and_eq_false_imp,
      decide_eq_true_eq, decide_eq_false_iff_not, UInt8.le_iff_toNat_le, ← UInt8.toNat_inj, ne_eq]
    constructor
    · simp; omega
    · simp; omega
  · rintro rfl
    exact absurd hrange.1 (by decide)
  · rintro rfl
    exact absurd hrange.1 (by decide)

theorem strtol_digits {ds rest : List UInt8} (hne : ds ≠ []) (hds : ∀ c ∈ ds, isDigit c = true)
    (hrest : ∀ c ∈ rest.head?, isDigit c = false) :
    strtol (ds ++ rest) = (clamp (value ds), rest) := by
  obtain ⟨c, ds', rfl⟩ := List.exists_cons_of_ne_nil hne
  obtain ⟨hspace, hminus, hplus⟩ := isDigit_cases (hds c List.mem_cons_self)
  have htake : rest.takeWhile isDigit = [] := by
    cases rest with
    | nil => rfl
    | cons d rest => rw [List.takeWhile_cons_of_neg (by rw [hrest d rfl]; decide)]
  have hdrop : rest.dropWhile isDigit = rest := by
    cases rest with
    | nil => rfl
    | cons d rest => rw [List.dropWhile_cons_of_neg (by rw [hrest d rfl]; decide)]
  have hsign : sign (((c :: ds') ++ rest).dropWhile isSpace) = (false, (c :: ds') ++ rest) := by
    rw [List.cons_append, List.dropWhile_cons_of_neg (by rw [hspace]; decide), sign, if_neg hminus,
      if_neg hplus]
  rw [strtol, hsign]
  dsimp only
  rw [List.takeWhile_append_of_pos hds, List.dropWhile_append_of_pos hds, htake, hdrop,
    List.append_nil, if_neg hne, if_neg Bool.false_ne_true]

end Strtol
