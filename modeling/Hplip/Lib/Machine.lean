import Mathlib.Data.List.Basic

/-!
# Runs of a deterministic machine

A component that answers calls is a step function from a state and a call to an
answer and the next state. A run is the list of its steps, each with the state
before and after it.
-/

namespace Machine

universe u v w

variable {σ : Type u} {α : Type v} {ρ : Type w}

structure Step (σ : Type u) (α : Type v) (ρ : Type w) where
  before : σ
  call : α
  answer : ρ
  after : σ

variable (step : σ → α → ρ × σ)

def stepOf (s : σ) (a : α) : Step σ α ρ := ⟨s, a, (step s a).1, (step s a).2⟩

def trace : σ → List α → List (Step σ α ρ)
  | _, [] => []
  | s, a :: as => stepOf step s a :: trace (step s a).2 as

def final : σ → List α → σ
  | s, [] => s
  | s, a :: as => final (step s a).2 as

variable {step}

@[simp] theorem trace_nil (s : σ) : trace step s [] = [] := rfl

@[simp] theorem trace_cons (s : σ) (a : α) (as : List α) :
    trace step s (a :: as) = stepOf step s a :: trace step (step s a).2 as := rfl

@[simp] theorem final_nil (s : σ) : final step s [] = s := rfl

@[simp] theorem final_cons (s : σ) (a : α) (as : List α) :
    final step s (a :: as) = final step (step s a).2 as := rfl

theorem eq_stepOf_of_mem {s : σ} {as : List α} {t : Step σ α ρ} (ht : t ∈ trace step s as) :
    t = stepOf step t.before t.call := by
  induction as generalizing s with
  | nil => cases ht
  | cons a as ih =>
    rcases List.mem_cons.mp ht with rfl | ht
    · rfl
    · exact ih ht

theorem trace_mono (s : σ) {as bs : List α} (h : as <+: bs) :
    trace step s as <+: trace step s bs := by
  induction as generalizing s bs with
  | nil => exact List.nil_prefix
  | cons a as ih =>
    obtain ⟨bs, rfl, hrest⟩ : ∃ cs, bs = a :: cs ∧ as <+: cs := by
      obtain ⟨t, rfl⟩ := h
      exact ⟨as ++ t, rfl, t, rfl⟩
    rw [trace_cons, trace_cons]
    exact List.cons_prefix_cons.mpr ⟨rfl, ih (step s a).2 hrest⟩

/-- **The invariant rule for steps**: a state property that holds first and that
every step meeting `G` keeps holds before and after every step, as long as all
steps meet `G`. -/
theorem trace_invariant (I : σ → Prop) (G : σ → α → Prop)
    (hstep : ∀ s a, I s → G s a → I (step s a).2) {s : σ} (hs : I s) :
    ∀ {as : List α}, (∀ t ∈ trace step s as, G t.before t.call) →
      ∀ t ∈ trace step s as, I t.before ∧ I t.after := by
  intro as
  induction as generalizing s with
  | nil =>
    intro _ t ht
    cases ht
  | cons a as ih =>
    intro hG t ht
    have hG' := List.forall_mem_cons.mp hG
    have hnext : I (step s a).2 := hstep s a hs hG'.1
    rcases List.mem_cons.mp ht with rfl | ht
    · exact ⟨hs, hnext⟩
    · exact ih hnext hG'.2 t ht

/-! ## Steps that may get stuck -/

def reached : Except σ σ → σ
  | .ok s => s
  | .error s => s

@[simp] theorem reached_ok (s : σ) : reached (.ok s) = s := rfl

@[simp] theorem reached_error (s : σ) : reached (.error s) = s := rfl

def Ends (I J : σ → Prop) : Except σ σ → Prop
  | .ok s => I s
  | .error s => J s

theorem Ends.mono {I J I' J' : σ → Prop} {r : Except σ σ} (h : Ends I J r)
    (hI : ∀ s, I s → I' s) (hJ : ∀ s, J s → J' s) : Ends I' J' r := by
  cases r with
  | ok s => exact hI s h
  | error s => exact hJ s h

theorem Ends.reached {I J : σ → Prop} {r : Except σ σ} (h : Ends I J r)
    (hIJ : ∀ s, I s → J s) : J (reached r) := by
  cases r with
  | ok s => exact hIJ s h
  | error s => exact h

theorem Ends.ok {I J : σ → Prop} {r : Except σ σ} (h : Ends I J r) (hJ : ∀ s, ¬ J s) :
    ∃ t, r = .ok t ∧ I t := by
  cases r with
  | ok s => exact ⟨s, rfl, h⟩
  | error s => exact absurd h (hJ s)

theorem Ends.bind {I I' J : σ → Prop} {r : Except σ σ} {f : σ → Except σ σ}
    (h : Ends I J r) (hf : ∀ s, I s → Ends I' J (f s)) : Ends I' J (r >>= f) := by
  cases r with
  | ok s => exact hf s h
  | error s => exact h

/-- **The invariant rule for a sequence of steps**: each keeps `I`, or is stuck where
`J` holds. -/
theorem Ends.foldlM {I J : σ → Prop} {f : σ → α → Except σ σ} {as : List α}
    (hstep : ∀ s, ∀ a ∈ as, I s → Ends I J (f s a)) {s : σ} (hs : I s) :
    Ends I J (as.foldlM f s) := by
  induction as generalizing s with
  | nil => exact hs
  | cons a as ih =>
    rw [List.foldlM_cons]
    refine (hstep s a List.mem_cons_self hs).bind fun t ht => ?_
    exact ih (fun t b hb => hstep t b (List.mem_cons_of_mem a hb)) ht

theorem reached_foldlM (I : σ → Prop) {f : σ → α → Except σ σ} {as : List α}
    (hstep : ∀ s, ∀ a ∈ as, I s → I (reached (f s a))) {s : σ} (hs : I s) :
    I (reached (as.foldlM f s)) := by
  refine (Ends.foldlM (J := I) (fun t a ha ht => ?_) hs).reached fun _ h => h
  have hnext := hstep t a ha ht
  cases hf : f t a with
  | ok t' =>
    rw [hf] at hnext
    exact hnext
  | error t' =>
    rw [hf] at hnext
    exact hnext

/-- A sequence of steps none of which gets stuck where the invariant holds is not
stuck, and keeps it. -/
theorem foldlM_ok (I : σ → Prop) {f : σ → α → Except σ σ} {as : List α}
    (hstep : ∀ s, ∀ a ∈ as, I s → ∃ t, f s a = .ok t ∧ I t) {s : σ} (hs : I s) :
    ∃ t, as.foldlM f s = .ok t ∧ I t := by
  refine (Ends.foldlM (J := fun _ => False) (fun t a ha ht => ?_) hs).ok fun _ h => h
  obtain ⟨t', hf, hI⟩ := hstep t a ha ht
  rw [hf]
  exact hI

end Machine
