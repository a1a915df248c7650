import Hplip.Lib.Checked
import Mathlib.Tactic.Ring

/-!
# Values of C's `int` and of 32-bit words

An `int` is an integer, and an operation whose exact result an `int` cannot hold is undefined:
`int` lets the computation end there. A 32-bit word becomes an `int` and back by its bits.

- `int_eq_ok`, `require_eq_ok`, `steps_of_ok`: what a computation that ended well has passed;
- `toDword_of_nonneg`: an `int` that is not negative, as a word;
- `wrapAdd`: a sum that may run over, `wrapAdd_eq` and `wrapAdd_over` its value.
-/

namespace CInt

universe u

variable {ε : Type u} {β : Type}

/-- What an `int` can hold. -/
def IsInt (n : Int) : Prop := -2 ^ 31 ≤ n ∧ n < 2 ^ 31

instance (n : Int) : Decidable (IsInt n) := inferInstanceAs (Decidable (_ ∧ _))

/-- The result of an operation on `int`. -/
def int (overflow : ε) (n : Int) : Except ε Int := if IsInt n then .ok n else .error overflow

theorem int_eq_ok {e : ε} {n m : Int} : int e n = .ok m ↔ IsInt n ∧ m = n := by
  by_cases h : IsInt n
  · rw [int, if_pos h, and_iff_right h, Except.ok.injEq, eq_comm]
  · rw [int, if_neg h]
    exact iff_of_false nofun fun hn => h hn.1

theorem require_eq_ok {p : Prop} [Decidable p] {e : ε} {u : Unit} :
    Checked.require p e = .ok u ↔ p := by
  by_cases h : p
  · exact iff_of_true (Checked.require_pos h) h
  · rw [Checked.require_neg h]
    exact iff_of_false nofun h

theorem steps_of_ok {α : Type} {x : Except ε α} {f : α → Except ε β} {b : β}
    (h : x >>= f = .ok b) : ∃ a, x = .ok a ∧ f a = .ok b := by
  cases x with
  | ok a => exact ⟨a, rfl, h⟩
  | error e => exact nomatch h

/-- The `int` with the bits of a word. -/
def ofDword (d : UInt32) : Int := if d.toNat < 2 ^ 31 then d.toNat else (d.toNat : Int) - 2 ^ 32

/-- The word with the bits of an `int`. -/
def toDword (n : Int) : UInt32 := UInt32.ofNat (n % 2 ^ 32).toNat

theorem toDword_of_nonneg {n : Int} (h₀ : 0 ≤ n) (h : n < 2 ^ 32) : (toDword n).toNat = n.toNat := by
  rw [toDword, UInt32.toNat_ofNat_of_lt' (by simp only [UInt32.size]; lia)]
  congr 1
  exact Int.emod_eq_of_lt h₀ h

theorem isInt_ofDword (d : UInt32) : IsInt (ofDword d) := by
  have hlt := d.toNat_lt
  unfold ofDword IsInt
  split <;> lia

theorem ofDword_toDword {n : Int} (h : IsInt n) : ofDword (toDword n) = n := by
  obtain ⟨hlow, hhigh⟩ := h
  have hword : (toDword n).toNat = (n % 2 ^ 32).toNat := by
    rw [toDword, UInt32.toNat_ofNat_of_lt' (by simp only [UInt32.size]; lia)]
  unfold ofDword
  rw [hword]
  split <;> lia

def wrapAdd (a b : Int) : Int := ofDword (toDword (a + b))

theorem isInt_wrapAdd (a b : Int) : IsInt (wrapAdd a b) := isInt_ofDword _

theorem wrapAdd_eq {a b : Int} (h : IsInt (a + b)) : wrapAdd a b = a + b := ofDword_toDword h

theorem wrapAdd_over {a b n : Int} (hsum : a + b = n + 2 ^ 32) (hn : IsInt n) :
    wrapAdd a b = n := by
  have hword : toDword (n + 2 ^ 32) = toDword n := by
    rw [toDword, Int.add_emod_right]
    rfl
  rw [wrapAdd, hsum, hword, ofDword_toDword hn]

end CInt
