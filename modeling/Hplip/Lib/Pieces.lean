import Mathlib.Data.List.Basic
import Mathlib.Tactic.Common

/-!
# A stream that arrives in pieces

A transport hands out what it has: a read for `n` elements gets at most what is left of the
piece that has arrived, and a pause ends it. `pull` is the loop that reads until it has `n`
elements, with the pieces it got on the way; `flat` is the stream without its cuts, a pause
being an element of its own.
-/

namespace Pieces

universe u

variable {α : Type u}

inductive Event (α : Type u) where
  | piece (p : List α)
  | pause
  deriving DecidableEq, Repr

/-- Read until `n` elements are there, or until a pause: the pieces in the order they came,
and the events left over. -/
def pull : List (Event α) → Nat → List (List α) × List (Event α)
  | es, 0 => ([], es)
  | [], _ + 1 => ([], [])
  | .pause :: es, _ + 1 => ([], es)
  | .piece p :: es, n + 1 =>
    if n + 1 < p.length then ([p.take (n + 1)], .piece (p.drop (n + 1)) :: es)
    else (p :: (pull es (n + 1 - p.length)).1, (pull es (n + 1 - p.length)).2)

def flat : List (Event α) → List (Option α)
  | [] => []
  | .pause :: es => none :: flat es
  | .piece p :: es => p.map some ++ flat es

def pullFlat : List (Option α) → Nat → List α × List (Option α)
  | w, 0 => ([], w)
  | [], _ + 1 => ([], [])
  | none :: w, _ + 1 => ([], w)
  | some a :: w, n + 1 => (a :: (pullFlat w n).1, (pullFlat w n).2)

@[simp] theorem pull_zero (es : List (Event α)) : pull es 0 = ([], es) := by
  cases es with
  | nil => rfl
  | cons e es => cases e <;> rfl

@[simp] theorem pullFlat_zero (w : List (Option α)) : pullFlat w 0 = ([], w) := by
  cases w with
  | nil => rfl
  | cons a w => cases a <;> rfl

@[simp] theorem pullFlat_nil (n : Nat) : pullFlat ([] : List (Option α)) n = ([], []) := by
  cases n with
  | zero => rfl
  | succ n => rfl

theorem pullFlat_some_append (p : List α) (w : List (Option α)) (n : Nat) :
    pullFlat (p.map some ++ w) n
      = if n < p.length then (p.take n, (p.drop n).map some ++ w)
        else (p ++ (pullFlat w (n - p.length)).1, (pullFlat w (n - p.length)).2) := by
  induction p generalizing n with
  | nil => simp
  | cons a p ih =>
    cases n with
    | zero => simp
    | succ n =>
      rw [List.map_cons, List.cons_append, pullFlat, ih]
      by_cases h : n < p.length
      · rw [if_pos h, if_pos (by rw [List.length_cons]; omega)]
        rfl
      · rw [if_neg h, if_neg (by rw [List.length_cons]; omega), List.length_cons,
          Nat.add_sub_add_right]
        rfl

theorem pull_eq (es : List (Event α)) (n : Nat) :
    (pull es n).1.flatten = (pullFlat (flat es) n).1
      ∧ flat (pull es n).2 = (pullFlat (flat es) n).2 := by
  induction es generalizing n with
  | nil =>
    cases n with
    | zero => exact ⟨rfl, rfl⟩
    | succ n => exact ⟨rfl, rfl⟩
  | cons e es ih =>
    cases n with
    | zero => simp
    | succ n =>
      cases e with
      | pause => exact ⟨rfl, rfl⟩
      | piece p =>
        rw [flat, pullFlat_some_append, pull]
        by_cases h : n + 1 < p.length
        · rw [if_pos h, if_pos h]
          exact ⟨by simp, rfl⟩
        · rw [if_neg h, if_neg h]
          obtain ⟨h1, h2⟩ := ih (n + 1 - p.length)
          exact ⟨by rw [List.flatten_cons, h1], h2⟩

theorem pull_flatten (es : List (Event α)) (n : Nat) :
    (pull es n).1.flatten = (pullFlat (flat es) n).1 := (pull_eq es n).1

theorem flat_pull (es : List (Event α)) (n : Nat) :
    flat (pull es n).2 = (pullFlat (flat es) n).2 := (pull_eq es n).2

theorem pullFlat_rest_le (w : List (Option α)) (n : Nat) :
    (pullFlat w n).2.length ≤ w.length := by
  induction w generalizing n with
  | nil => simp
  | cons a w ih =>
    cases n with
    | zero => simp
    | succ n =>
      cases a with
      | none => exact Nat.le_succ _
      | some a => exact Nat.le_trans (ih n) (Nat.le_succ _)

theorem pullFlat_rest_lt {w : List (Option α)} {n : Nat} (hn : 0 < n) (hw : w ≠ []) :
    (pullFlat w n).2.length < w.length := by
  cases w with
  | nil => exact absurd rfl hw
  | cons a w =>
    cases n with
    | zero => exact absurd hn (Nat.lt_irrefl 0)
    | succ n =>
      cases a with
      | none => exact Nat.lt_succ_self _
      | some a => exact Nat.lt_succ_of_le (pullFlat_rest_le w n)

/-! ## What has arrived -/

def ready : List (Option α) → List α
  | some a :: w => a :: ready w
  | _ => []

def elements (w : List (Option α)) : List α := w.filterMap id

theorem pullFlat_eq_take (w : List (Option α)) (n : Nat) :
    (pullFlat w n).1 = (ready w).take n := by
  induction w generalizing n with
  | nil => simp [ready]
  | cons a w ih =>
    cases n with
    | zero => simp
    | succ n =>
      cases a with
      | none => rfl
      | some a => rw [pullFlat, ready, List.take_succ_cons, ih]

theorem ready_pullFlat {w : List (Option α)} {n : Nat} (h : n ≤ (ready w).length) :
    ready (pullFlat w n).2 = (ready w).drop n := by
  induction w generalizing n with
  | nil =>
    rw [pullFlat_nil]
    simp [ready]
  | cons a w ih =>
    cases n with
    | zero => simp
    | succ n =>
      cases a with
      | none => exact absurd h (Nat.not_succ_le_zero n)
      | some a => exact ih (Nat.le_of_succ_le_succ h)

theorem elements_pullFlat (w : List (Option α)) (n : Nat) :
    elements w = (pullFlat w n).1 ++ elements (pullFlat w n).2 := by
  induction w generalizing n with
  | nil =>
    rw [pullFlat_nil]
    rfl
  | cons a w ih =>
    cases n with
    | zero => simp
    | succ n =>
      cases a with
      | none => rfl
      | some a =>
        rw [pullFlat, List.cons_append, ← ih]
        rfl

/-! ## Streams without empty pieces -/

def Solid (es : List (Event α)) : Prop := ∀ p, Event.piece p ∈ es → p ≠ []

theorem Solid.of_cons {e : Event α} {es : List (Event α)} (h : Solid (e :: es)) : Solid es :=
  fun p hp => h p (List.mem_cons_of_mem e hp)

theorem Solid.pull {es : List (Event α)} (h : Solid es) (n : Nat) : Solid (pull es n).2 := by
  induction es generalizing n with
  | nil =>
    cases n with
    | zero => exact h
    | succ n => exact h
  | cons e es ih =>
    cases n with
    | zero => simpa using h
    | succ n =>
      cases e with
      | pause => exact h.of_cons
      | piece p =>
        rw [Pieces.pull]
        by_cases hlt : n + 1 < p.length
        · rw [if_pos hlt]
          intro q hq
          rcases List.mem_cons.mp hq with heq | hmem
          · cases heq
            exact List.ne_nil_of_length_pos (by rw [List.length_drop]; lia)
          · exact h.of_cons q hmem
        · rw [if_neg hlt]
          exact ih h.of_cons _

theorem Solid.ne_nil {es : List (Event α)} (h : Solid es) (n : Nat) :
    ∀ p ∈ (Pieces.pull es n).1, p ≠ [] := by
  induction es generalizing n with
  | nil =>
    cases n with
    | zero => nofun
    | succ n => nofun
  | cons e es ih =>
    cases n with
    | zero => simp
    | succ n =>
      cases e with
      | pause => nofun
      | piece p =>
        rw [Pieces.pull]
        by_cases hlt : n + 1 < p.length
        · rw [if_pos hlt]
          intro q hq
          rw [List.mem_singleton.mp hq]
          exact List.ne_nil_of_length_pos (by rw [List.length_take]; lia)
        · rw [if_neg hlt]
          intro q hq
          rcases List.mem_cons.mp hq with heq | hmem
          · rw [heq]
            exact h p List.mem_cons_self
          · exact ih h.of_cons _ q hmem

end Pieces
