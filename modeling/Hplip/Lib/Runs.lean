import Mathlib.Data.List.Basic
import Mathlib.Tactic.Common

/-!
# Runs with a history

A step relation with labels, the runs it has, and a history that is kept beside the state: what
is noted of a step depends on the step and not on the history. A property of state and history
that every good step keeps holds all along a run of good steps.
-/

namespace Runs

universe u v w

structure Taken (σ : Type u) (α : Type v) where
  before : σ
  act : α
  after : σ

variable {σ : Type u} {α : Type v} {γ : Type w} {step : α → σ → σ → Prop}

inductive Run (step : α → σ → σ → Prop) : σ → List (Taken σ α) → σ → Prop
  | nil (s : σ) : Run step s [] s
  | cons {s t u : σ} {a : α} {ts : List (Taken σ α)} (h : step a s t) (hts : Run step t ts u) :
      Run step s (⟨s, a, t⟩ :: ts) u

theorem Run.append {s t u : σ} {ts ts' : List (Taken σ α)} (h : Run step s ts t)
    (h' : Run step t ts' u) : Run step s (ts ++ ts') u := by
  induction h with
  | nil => exact h'
  | cons hstep _ ih => exact .cons hstep (ih h')

theorem Run.of_append {s u : σ} {ts ts' : List (Taken σ α)} (h : Run step s (ts ++ ts') u) :
    ∃ t, Run step s ts t ∧ Run step t ts' u := by
  induction ts generalizing s with
  | nil => exact ⟨s, .nil s, h⟩
  | cons x ts ih =>
    cases h with
    | cons hstep hts =>
      obtain ⟨t, h1, h2⟩ := ih hts
      exact ⟨t, .cons hstep h1, h2⟩

/-- **The invariant rule**: `I` of state and history is kept by every step that meets `G`. -/
theorem Run.keeps {I : σ → γ → Prop} {G : Taken σ α → Prop} {note : γ → Taken σ α → γ}
    (hstep : ∀ a s t g, step a s t → G ⟨s, a, t⟩ → I s g → I t (note g ⟨s, a, t⟩)) {s u : σ}
    {ts : List (Taken σ α)} (h : Run step s ts u) {g : γ} (hI : I s g) (hG : ∀ x ∈ ts, G x) :
    I u (ts.foldl note g) := by
  induction h generalizing g with
  | nil => exact hI
  | cons hs _ ih =>
    exact ih (hstep _ _ _ g hs (hG _ List.mem_cons_self) hI)
      fun x hx => hG x (List.mem_cons_of_mem _ hx)

theorem Run.mono {step' : α → σ → σ → Prop} (himp : ∀ a s t, step a s t → step' a s t) {s t : σ}
    {ts : List (Taken σ α)} (h : Run step s ts t) : Run step' s ts t := by
  induction h with
  | nil s => exact .nil s
  | cons hs _ ih => exact .cons (himp _ _ _ hs) ih

theorem Run.of_mem {s t : σ} {ts : List (Taken σ α)} (h : Run step s ts t) {x : Taken σ α}
    (hx : x ∈ ts) : step x.act x.before x.after := by
  induction h with
  | nil => cases hx
  | cons hs _ ih =>
    rcases List.mem_cons.mp hx with rfl | hx
    · exact hs
    · exact ih hx

/-- Some run leads from one state to the other. -/
def Reaches (step : α → σ → σ → Prop) (s t : σ) : Prop := ∃ ts, Run step s ts t

theorem Reaches.refl (s : σ) : Reaches step s s := ⟨[], .nil s⟩

theorem Reaches.of_step {a : α} {s t : σ} (h : step a s t) : Reaches step s t :=
  ⟨_, .cons h (.nil t)⟩

theorem Reaches.trans {s t u : σ} (h : Reaches step s t) (h' : Reaches step t u) :
    Reaches step s u := by
  obtain ⟨ts, hts⟩ := h
  obtain ⟨ts', hts'⟩ := h'
  exact ⟨ts ++ ts', hts.append hts'⟩

theorem Reaches.then {a : α} {s t u : σ} (h : Reaches step s t) (h' : step a t u) :
    Reaches step s u := h.trans (.of_step h')

end Runs
