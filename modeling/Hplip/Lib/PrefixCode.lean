import Hplip.Lib.Bits
import Mathlib.Tactic.Linarith

/-!
# Prefix codes in order

A code is a list of words with values. Seen in a window of `w` bits, a word stands for all
windows that begin with it, an interval; a code is `Chained` when the intervals follow each
other in the order of the list and leave the window of ones free.
-/

namespace PrefixCode

open Bits

/-- A word of `size` bits and the value it stands for. -/
structure Elem (α : Type*) where
  size : Nat
  code : Nat
  value : α
  deriving DecidableEq

variable {α : Type*} {w : Nat} {e : Elem α} {es : List (Elem α)}

def Elem.bits (e : Elem α) : List Bool := natBits e.size e.code

@[simp] theorem Elem.bits_length (e : Elem α) : e.bits.length = e.size := natBits_length _ _

def Elem.left (w : Nat) (e : Elem α) : Nat := e.code * 2 ^ (w - e.size)

def Elem.width (w : Nat) (e : Elem α) : Nat := 2 ^ (w - e.size)

def Elem.Prefixes (w : Nat) (e : Elem α) (window : Nat) : Prop :=
  window / 2 ^ (w - e.size) = e.code

instance (w : Nat) (e : Elem α) (window : Nat) : Decidable (e.Prefixes w window) :=
  inferInstanceAs (Decidable (_ = _))

theorem Elem.prefixes_iff {window : Nat} :
    e.Prefixes w window ↔ e.left w ≤ window ∧ window < e.left w + e.width w := by
  have hpos : 0 < 2 ^ (w - e.size) := Nat.pow_pos (by decide)
  rw [Elem.Prefixes, Elem.left, Elem.width]
  constructor
  · intro h
    have hdiv := Nat.div_add_mod window (2 ^ (w - e.size))
    have hmod := Nat.mod_lt window hpos
    rw [h, Nat.mul_comm] at hdiv
    lia
  · rintro ⟨hlow, hhigh⟩
    rw [← Nat.succ_mul] at hhigh
    exact Nat.div_eq_of_lt_le hlow hhigh

/-- The intervals follow each other from `lo` on and end before the last window. -/
def Chained (w : Nat) : Nat → List (Elem α) → Prop
  | lo, [] => lo < 2 ^ w
  | lo, e :: es =>
    (1 ≤ e.size ∧ e.size ≤ w ∧ lo ≤ e.left w) ∧ Chained w (e.left w + e.width w) es

instance Chained.decidable (w : Nat) : ∀ (lo : Nat) (es : List (Elem α)),
    Decidable (Chained w lo es)
  | lo, [] => inferInstanceAs (Decidable (lo < 2 ^ w))
  | lo, e :: es =>
    have := Chained.decidable w (e.left w + e.width w) es
    inferInstanceAs (Decidable ((1 ≤ e.size ∧ e.size ≤ w ∧ lo ≤ e.left w) ∧ _))

theorem Chained.le_left {lo : Nat} (h : Chained w lo es) : ∀ e ∈ es, lo ≤ e.left w := by
  induction es generalizing lo with
  | nil => simp
  | cons e es ih =>
    intro x hx
    rcases List.mem_cons.mp hx with rfl | hx
    · exact h.1.2.2
    · have hnext := ih h.2 x hx
      have hhead := h.1.2.2
      omega

theorem Chained.pairwise {lo : Nat} (h : Chained w lo es) :
    es.Pairwise fun x y => x.left w + x.width w ≤ y.left w := by
  induction es generalizing lo with
  | nil => exact List.Pairwise.nil
  | cons e es ih => exact List.pairwise_cons.mpr ⟨h.2.le_left, ih h.2⟩

theorem Chained.of_append {lo : Nat} {front : List (Elem α)} (h : Chained w lo (front ++ es)) :
    ∃ lo', Chained w lo' es := by
  induction front generalizing lo with
  | nil => exact ⟨lo, h⟩
  | cons x front ih => exact ih h.2

theorem Chained.not_prefixes {lo : Nat} {front back : List (Elem α)} {window : Nat}
    (h : Chained w lo (front ++ e :: back)) (hw : e.Prefixes w window) :
    (∀ x ∈ front, ¬ x.Prefixes w window) ∧ ∀ x ∈ back, ¬ x.Prefixes w window := by
  obtain ⟨-, htail, hcross⟩ := List.pairwise_append.mp h.pairwise
  obtain ⟨hlow, hhigh⟩ := Elem.prefixes_iff.mp hw
  constructor
  · intro x hx hbegins
    have hle := hcross x hx e List.mem_cons_self
    obtain ⟨-, hx_high⟩ := Elem.prefixes_iff.mp hbegins
    omega
  · intro x hx hbegins
    have hle := (List.pairwise_cons.mp htail).1 x hx
    obtain ⟨hx_low, -⟩ := Elem.prefixes_iff.mp hbegins
    omega

theorem Chained.bounds {lo : Nat} (h : Chained w lo es) :
    ∀ e ∈ es, (1 ≤ e.size ∧ e.size ≤ w) ∧ e.left w + e.width w < 2 ^ w := by
  induction es generalizing lo with
  | nil => simp
  | cons e es ih =>
    intro x hx
    rcases List.mem_cons.mp hx with rfl | hx
    · refine ⟨⟨h.1.1, h.1.2.1⟩, ?_⟩
      rcases es with _ | ⟨y, es⟩
      · exact h.2
      · have hnext := (ih h.2 y List.mem_cons_self).2
        have hle := h.2.1.2.2
        have hpos : 0 < y.width w := Nat.pow_pos (by decide)
        lia
    · exact ih h.2 x hx

theorem Chained.code_lt {lo : Nat} (h : Chained w lo es) (he : e ∈ es) :
    e.code + 1 < 2 ^ e.size := by
  obtain ⟨⟨-, hsize⟩, hend⟩ := h.bounds e he
  rw [Elem.left, Elem.width, ← Nat.succ_mul, ← Nat.add_sub_cancel' hsize, Nat.pow_add,
    Nat.add_sub_cancel_left] at hend
  exact Nat.lt_of_mul_lt_mul_right hend

theorem Chained.false_mem_bits {lo : Nat} (h : Chained w lo es) (he : e ∈ es) :
    false ∈ e.bits := by
  have hlt := h.code_lt he
  by_contra hno
  have hones : e.bits = List.replicate e.size true := by
    refine List.eq_replicate_iff.mpr ⟨e.bits_length, fun b hb => ?_⟩
    cases b with
    | false => exact absurd hb hno
    | true => rfl
  have heq := natBits_inj (by lia) (Nat.sub_lt (Nat.two_pow_pos _) Nat.one_pos)
    (hones.trans (natBits_two_pow_sub_one _).symm)
  lia

theorem Elem.prefixes_ofBits {bits : List Bool} (hcode : e.code < 2 ^ e.size)
    (hsize : e.size ≤ w) (hlen : (e.bits ++ bits).length = w) :
    e.Prefixes w (ofBits (e.bits ++ bits)) := by
  have hrest : bits.length = w - e.size := by
    rw [List.length_append, Elem.bits_length] at hlen
    lia
  rw [Elem.Prefixes, ofBits_append, hrest, Elem.bits, ofBits_natBits, Nat.mod_eq_of_lt hcode,
    Nat.mul_comm, Nat.mul_add_div (Nat.two_pow_pos _),
    Nat.div_eq_of_lt (hrest ▸ ofBits_lt bits), Nat.add_zero]

/-! ## Canonical codes -/

/-- The canonical words: each of them begins where the one before ends. -/
def canonical (w : Nat) : Nat → List (Nat × α) → List (Elem α)
  | _, [] => []
  | lo, (size, value) :: l =>
    ⟨size, lo / 2 ^ (w - size), value⟩ :: canonical w (lo + 2 ^ (w - size)) l

/-- The room that words of these sizes take, the sum of Kraft times `2 ^ w`. -/
def kraft (w : Nat) (sizes : List Nat) : Nat := (sizes.map fun size => 2 ^ (w - size)).sum

theorem kraft_cons {size : Nat} {sizes : List Nat} :
    kraft w (size :: sizes) = 2 ^ (w - size) + kraft w sizes := rfl

theorem dvd_next {lo s s' : Nat} (h : 2 ^ (w - s) ∣ lo) (hle : s ≤ s') :
    2 ^ (w - s') ∣ lo + 2 ^ (w - s) := by
  have hdvd : 2 ^ (w - s') ∣ 2 ^ (w - s) := Nat.pow_dvd_pow 2 (by lia)
  exact Nat.dvd_add (hdvd.trans h) hdvd

theorem canonical_chained {lo : Nat} {l : List (Nat × α)}
    (hsorted : l.Pairwise fun a b => a.1 ≤ b.1) (hsizes : ∀ a ∈ l, 1 ≤ a.1 ∧ a.1 ≤ w)
    (hdvd : ∀ a ∈ l.head?, 2 ^ (w - a.1) ∣ lo) (hroom : lo + kraft w (l.map (·.1)) < 2 ^ w) :
    Chained w lo (canonical w lo l) := by
  induction l generalizing lo with
  | nil => exact hroom
  | cons a l ih =>
    obtain ⟨s, v⟩ := a
    obtain ⟨hle, hsorted⟩ := List.pairwise_cons.mp hsorted
    have hlo : 2 ^ (w - s) ∣ lo := hdvd _ rfl
    have hleft : lo / 2 ^ (w - s) * 2 ^ (w - s) = lo := Nat.div_mul_cancel hlo
    obtain ⟨hpos, hfit⟩ := hsizes _ List.mem_cons_self
    refine ⟨⟨hpos, hfit, Nat.le_of_eq hleft.symm⟩, ?_⟩
    have hend : Elem.left w ⟨s, lo / 2 ^ (w - s), v⟩ + Elem.width w ⟨s, lo / 2 ^ (w - s), v⟩
        = lo + 2 ^ (w - s) := congrArg (· + 2 ^ (w - s)) hleft
    rw [hend]
    refine ih hsorted (fun a ha => hsizes a (List.mem_cons_of_mem _ ha)) (fun a ha => ?_) ?_
    · exact dvd_next hlo (hle a (List.mem_of_mem_head? ha))
    · rw [List.map_cons, kraft_cons] at hroom
      lia

theorem canonical_ones {lo : Nat} {l : List (Nat × α)} (hne : l ≠ [])
    (hsorted : l.Pairwise fun a b => a.1 ≤ b.1) (hsizes : ∀ a ∈ l, 1 ≤ a.1 ∧ a.1 ≤ w)
    (hdvd : ∀ a ∈ l.head?, 2 ^ (w - a.1) ∣ lo) (hroom : lo + kraft w (l.map (·.1)) = 2 ^ w) :
    ∃ e ∈ canonical w lo l, e.code + 1 = 2 ^ e.size := by
  induction l generalizing lo with
  | nil => exact absurd rfl hne
  | cons a l ih =>
    obtain ⟨s, v⟩ := a
    obtain ⟨hle, hsorted⟩ := List.pairwise_cons.mp hsorted
    have hlo : 2 ^ (w - s) ∣ lo := hdvd _ rfl
    obtain ⟨-, hfit⟩ := hsizes _ List.mem_cons_self
    rw [List.map_cons, kraft_cons] at hroom
    rcases l with _ | ⟨b, l⟩
    · -- the last word ends where the windows do
      refine ⟨_, List.mem_cons_self, ?_⟩
      have hleft : lo / 2 ^ (w - s) * 2 ^ (w - s) = lo := Nat.div_mul_cancel hlo
      have hpow : 2 ^ w = 2 ^ s * 2 ^ (w - s) := by
        rw [← Nat.pow_add, Nat.add_sub_cancel' hfit]
      refine Nat.mul_right_cancel (Nat.two_pow_pos (w - s)) ?_
      show (lo / 2 ^ (w - s) + 1) * 2 ^ (w - s) = 2 ^ s * 2 ^ (w - s)
      rw [Nat.succ_mul, hleft, ← hpow, ← hroom]
      rfl
    · obtain ⟨e, he, hones⟩ := @ih (lo + 2 ^ (w - s)) (List.cons_ne_nil _ _) hsorted
        (fun a ha => hsizes a (List.mem_cons_of_mem _ ha))
        (fun a ha => dvd_next hlo (hle a (List.mem_of_mem_head? ha))) (by lia)
      exact ⟨e, List.mem_cons_of_mem _ he, hones⟩

theorem canonical_le_left {lo : Nat} {l : List (Nat × α)}
    (hsorted : l.Pairwise fun a b => a.1 ≤ b.1) (hdvd : ∀ a ∈ l.head?, 2 ^ (w - a.1) ∣ lo) :
    (∀ e ∈ canonical w lo l, lo ≤ e.left w)
      ∧ (canonical w lo l).Pairwise fun x y => x.left w + x.width w ≤ y.left w := by
  induction l generalizing lo with
  | nil => exact ⟨nofun, List.Pairwise.nil⟩
  | cons a l ih =>
    obtain ⟨s, v⟩ := a
    obtain ⟨hle, hsorted⟩ := List.pairwise_cons.mp hsorted
    have hlo : 2 ^ (w - s) ∣ lo := hdvd _ rfl
    have hleft : lo / 2 ^ (w - s) * 2 ^ (w - s) = lo := Nat.div_mul_cancel hlo
    obtain ⟨hnext, hpairs⟩ := @ih (lo + 2 ^ (w - s)) hsorted
      fun a ha => dvd_next hlo (hle a (List.mem_of_mem_head? ha))
    constructor
    · intro e he
      rcases List.mem_cons.mp he with rfl | he
      · exact Nat.le_of_eq hleft.symm
      · exact Nat.le_trans (Nat.le_add_right _ _) (hnext e he)
    · refine List.pairwise_cons.mpr ⟨fun e he => ?_, hpairs⟩
      have hle := hnext e he
      show lo / 2 ^ (w - s) * 2 ^ (w - s) + 2 ^ (w - s) ≤ e.left w
      rwa [hleft]

theorem canonical_sizes {lo : Nat} {l : List (Nat × α)} :
    (canonical w lo l).map (·.size) = l.map (·.1) := by
  induction l generalizing lo with
  | nil => rfl
  | cons a l ih => exact congrArg (a.1 :: ·) ih

end PrefixCode
