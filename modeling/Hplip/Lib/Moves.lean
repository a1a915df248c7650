import Mathlib.Data.List.Basic
import Mathlib.Logic.Function.Basic

/-!
# Moves from one buffer to another

A copying loop `*out_p = *in_p` with two pointers that go on by their own strides is the list of
the moves that it makes, in their order.
-/

namespace Moves

universe u

variable {α : Type u}

structure Move where
  dst : Nat
  src : Nat
  deriving DecidableEq

def run (buf : Nat → α) : List Move → (Nat → α) → Nat → α
  | [], m => m
  | v :: vs, m => run buf vs (Function.update m v.dst (buf v.src))

section Runs

variable {buf buf' : Nat → α} {m : Nat → α} {vs ws : List Move} {a : Nat} {b : α}

theorem run_other (h : ∀ v ∈ vs, v.dst ≠ a) : run buf vs m a = m a := by
  induction vs generalizing m with
  | nil => rfl
  | cons v vs ih =>
    rw [run, ih fun v hv => h v (List.mem_cons_of_mem _ hv)]
    exact Function.update_of_ne (h v List.mem_cons_self).symm _ _

/-- **A cell** that some moves go to, all of them with one value. -/
theorem run_cell (hsome : ∃ v ∈ vs, v.dst = a) (hall : ∀ v ∈ vs, v.dst = a → buf v.src = b) :
    run buf vs m a = b := by
  induction vs generalizing m with
  | nil =>
    obtain ⟨v, hv, -⟩ := hsome
    exact absurd hv List.not_mem_nil
  | cons v vs ih =>
    have hrest : ∀ w ∈ vs, w.dst = a → buf w.src = b :=
      fun w hw => hall w (List.mem_cons_of_mem _ hw)
    by_cases hlater : ∃ w ∈ vs, w.dst = a
    · exact ih hlater hrest
    -- the first move is the last one that goes there
    obtain ⟨w, hw, hdst⟩ := hsome
    rcases List.mem_cons.mp hw with rfl | hw
    · rw [run, run_other fun u hu hua => hlater ⟨u, hu, hua⟩, ← hdst, Function.update_self]
      exact hall w hw hdst
    · exact absurd ⟨w, hw, hdst⟩ hlater

theorem run_congr (h : ∀ v ∈ vs, buf v.src = buf' v.src) : run buf vs m = run buf' vs m := by
  induction vs generalizing m with
  | nil => rfl
  | cons v vs ih =>
    rw [run, run, h v List.mem_cons_self]
    exact ih fun v hv => h v (List.mem_cons_of_mem _ hv)

end Runs

/-! ## Moves by their number -/

/-- The first `n` of the moves from `s i` to `d i`. -/
def walk (d s : Nat → Nat) (n : Nat) : List Move := (List.range n).map fun i => ⟨d i, s i⟩

variable {d s : Nat → Nat} {n : Nat} {v : Move}

theorem mem_walk : v ∈ walk d s n ↔ ∃ i < n, v = ⟨d i, s i⟩ := by
  rw [walk, List.mem_map]
  constructor
  · rintro ⟨i, hi, rfl⟩
    exact ⟨i, List.mem_range.mp hi, rfl⟩
  · rintro ⟨i, hi, rfl⟩
    exact ⟨i, List.mem_range.mpr hi, rfl⟩

theorem walk_succ :
    walk d s (n + 1) = ⟨d 0, s 0⟩ :: walk (fun i => d (i + 1)) (fun i => s (i + 1)) n := by
  rw [walk, List.range_succ_eq_map, List.map_cons, List.map_map]
  rfl

theorem run_fill {α : Type u} (buf m : Nat → α) (a : Nat) :
    run buf (walk (·) s n) m a = if a < n then buf (s a) else m a := by
  split
  · rename_i ha
    refine run_cell ⟨_, mem_walk.mpr ⟨a, ha, rfl⟩, rfl⟩ ?_
    rintro v hv rfl
    obtain ⟨i, -, rfl⟩ := mem_walk.mp hv
    rfl
  · rename_i ha
    refine run_other ?_
    rintro v hv rfl
    obtain ⟨i, hi, rfl⟩ := mem_walk.mp hv
    exact ha hi

end Moves
