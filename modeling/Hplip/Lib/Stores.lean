import Mathlib

/-!
# Stores through a moving pointer

A C loop fills a buffer by stores through a pointer that it moves on; a store may be longer than
the pointer moves, and the next one goes over what it has left behind.
-/

namespace Stores

universe u

variable {α : Type u}

structure Store (α : Type u) where
  cells : List α
  advance : Nat
  deriving DecidableEq

/-- `*p++ = ..` -/
def Store.of (l : List α) : Store α := ⟨l, l.length⟩

def put (m : Nat → α) (p : Nat) (l : List α) : Nat → α :=
  fun i => if h : p ≤ i ∧ i - p < l.length then l.get ⟨i - p, h.2⟩ else m i

def run : List (Store α) → Nat → (Nat → α) → Nat → α
  | [], _, m => m
  | s :: ss, p, m => run ss (p + s.advance) (put m p s.cells)

def advance (ss : List (Store α)) : Nat := (ss.map Store.advance).sum

def reach : List (Store α) → Nat → Nat
  | [], _ => 0
  | s :: ss, p => max (p + s.cells.length) (reach ss (p + s.advance))

/-! ## Sequences -/

section Sequences

variable {m : Nat → α} {p i j : Nat} {l : List α} {ss ts : List (Store α)}

theorem put_below (h : i < p) : put m p l i = m i := dif_neg fun hi => absurd hi.1 (Nat.not_le.mpr h)

theorem put_at (h : j < l.length) : put m p l (p + j) = l.get ⟨j, h⟩ := by
  have hj : p + j - p = j := Nat.add_sub_cancel_left p j
  rw [put, dif_pos ⟨Nat.le_add_right p j, by rwa [hj]⟩]
  congr 2

theorem run_below (h : i < p) : run ss p m i = m i := by
  induction ss generalizing p m with
  | nil => rfl
  | cons s ss ih => rw [run, ih (Nat.lt_add_right _ h), put_below h]

theorem advance_append : advance (ss ++ ts) = advance ss + advance ts := by
  rw [advance, List.map_append, List.sum_append]
  rfl

theorem run_append : run (ss ++ ts) p m = run ts (p + advance ss) (run ss p m) := by
  induction ss generalizing p m with
  | nil => rfl
  | cons s ss ih =>
    rw [List.cons_append, run, ih, run, advance, advance, List.map_cons, List.sum_cons, Nat.add_assoc]

theorem reach_append : reach (ss ++ ts) p = max (reach ss p) (reach ts (p + advance ss)) := by
  induction ss generalizing p with
  | nil => exact (Nat.zero_max _).symm
  | cons s ss ih =>
    rw [List.cons_append, reach, ih, reach, advance, advance, List.map_cons, List.sum_cons,
      Nat.max_assoc, Nat.add_assoc]

end Sequences

/-! ## Groups -/

/-- Stores that move the pointer over `w` cells, leave `e` in them and go `k` cells further. -/
structure Fills (w k : Nat) (e : Nat → α) (ss : List (Store α)) : Prop where
  advance : advance ss = w
  cells : ∀ p m j, j < w → run ss p m (p + j) = e j
  reach : ∀ p, reach ss p = p + w + k

section Groups

variable {w k : Nat} {e : Nat → Nat → α} {f : Nat → List (Store α)} {m : Nat → α}

theorem advance_blocks (hf : ∀ x, Fills w k (e x) (f x)) (c : Nat) :
    Stores.advance ((List.range c).flatMap f) = w * c := by
  induction c with
  | zero => rfl
  | succ c ih =>
    rw [List.range_succ, List.flatMap_append, advance_append, ih, List.flatMap_singleton,
      (hf c).advance]
    rfl

/-- **Groups**: each has filled its cells in the end, for a later one begins behind them. -/
theorem run_blocks (hf : ∀ x, Fills w k (e x) (f x)) {c x j : Nat} (hx : x < c) (hj : j < w) :
    run ((List.range c).flatMap f) 0 m (w * x + j) = e x j := by
  induction c with
  | zero => exact absurd hx (Nat.not_lt_zero x)
  | succ c ih =>
    rw [List.range_succ, List.flatMap_append, run_append, advance_blocks hf, Nat.zero_add,
      List.flatMap_singleton]
    rcases Nat.lt_succ_iff_lt_or_eq.mp hx with hlt | rfl
    · have hbelow : w * x + j < w * c := by
        have hmul := Nat.mul_le_mul_left w (Nat.succ_le_of_lt hlt)
        rw [Nat.mul_succ] at hmul
        lia
      rw [run_below hbelow]
      exact ih hlt
    · exact (hf x).cells _ _ j hj

theorem reach_blocks (hf : ∀ x, Fills w k (e x) (f x)) (c : Nat) :
    Stores.reach ((List.range (c + 1)).flatMap f) 0 = w * (c + 1) + k := by
  induction c with
  | zero =>
    rw [List.range_one, List.flatMap_singleton, (hf 0).reach]
    lia
  | succ c ih =>
    rw [List.range_succ, List.flatMap_append, reach_append, ih, advance_blocks hf,
      List.flatMap_singleton, (hf (c + 1)).reach, Nat.mul_succ w (c + 1)]
    lia

theorem Fills.congr {w : Nat} {e e' : Nat → α} {ss : List (Store α)} (h : Fills w k e ss)
    (he : ∀ j < w, e j = e' j) : Fills w k e' ss :=
  ⟨h.advance, fun p m j hj => (h.cells p m j hj).trans (he j hj), h.reach⟩

theorem Fills.single (l : List α) (d : α) {w : Nat} (h : w ≤ l.length) :
    Fills w (l.length - w) (l.getD · d) [⟨l, w⟩] := by
  constructor
  · rfl
  · intro p m j hj
    have hlt : j < l.length := Nat.lt_of_lt_of_le hj h
    rw [run, run, put_at hlt, List.getD_eq_getElem?_getD, List.getElem?_eq_getElem hlt]
    rfl
  · intro p
    show max (p + l.length) 0 = p + w + (l.length - w)
    lia

/-! ## Plain stores -/

variable {p : Nat}

theorem put_append (a b : List α) : put (put m p a) (p + a.length) b = put m p (a ++ b) := by
  funext i
  by_cases hbelow : i < p
  · rw [put_below (Nat.lt_add_right _ hbelow), put_below hbelow, put_below hbelow]
  obtain ⟨j, rfl⟩ := Nat.exists_eq_add_of_le (Nat.not_lt.mp hbelow)
  by_cases ha : j < a.length
  · rw [put_below (Nat.add_lt_add_left ha p), put_at ha,
      put_at (l := a ++ b) (by rw [List.length_append]; lia)]
    exact (List.getElem_append_left ha).symm
  obtain ⟨j, rfl⟩ := Nat.exists_eq_add_of_le (Nat.not_lt.mp ha)
  by_cases hb : j < b.length
  · rw [← Nat.add_assoc, put_at hb, Nat.add_assoc,
      put_at (l := a ++ b) (by rw [List.length_append]; lia)]
    simp
  · rw [put, dif_neg (by lia), put, dif_neg (by lia), put,
      dif_neg (by rw [List.length_append]; lia)]

theorem run_map_of (ls : List (List α)) : run (ls.map Store.of) p m = put m p ls.flatten := by
  induction ls generalizing p m with
  | nil =>
    funext i
    rw [put, dif_neg fun hi => absurd hi.2 (Nat.not_lt_zero _)]
    rfl
  | cons l ls ih =>
    rw [List.map_cons, run, ih, List.flatten_cons]
    exact put_append l ls.flatten

theorem advance_map_of (ls : List (List α)) :
    Stores.advance (ls.map Store.of) = ls.flatten.length := by
  rw [Stores.advance, List.map_map, List.length_flatten]
  rfl

theorem reach_map_of {ls : List (List α)} (h : ls ≠ []) :
    Stores.reach (ls.map Store.of) p = p + ls.flatten.length := by
  induction ls generalizing p with
  | nil => exact absurd rfl h
  | cons l ls ih =>
    rw [List.map_cons, Stores.reach, List.flatten_cons, List.length_append, ← Nat.add_assoc]
    by_cases hls : ls = []
    · subst hls
      exact Nat.max_eq_left (Nat.zero_le _)
    · rw [ih hls]
      exact Nat.max_eq_right (Nat.le_add_right _ _)

theorem Fills.of (ls : List (List α)) (h : ls ≠ []) (d : α) :
    Fills ls.flatten.length 0 (ls.flatten.getD · d) (ls.map Store.of) := by
  constructor
  · exact advance_map_of ls
  · intro p m j hj
    rw [run_map_of, put_at hj, List.getD_eq_getElem?_getD, List.getElem?_eq_getElem hj]
    rfl
  · exact fun p => reach_map_of h

end Groups

end Stores
