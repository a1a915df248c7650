import Mathlib.Tactic.Common

/-!
# Computations that may fault or give up

A computation reads and changes a state. It may give up with an error that it reports, or
fault: then nothing is known of what it does.
-/

namespace Faults

universe u v

inductive Stop (ε : Type u) where
  | fault
  | gaveUp (e : ε)

abbrev Comp (ε : Type u) (σ α : Type v) := StateT σ (Except (Stop ε)) α

variable {ε : Type u} {σ α β : Type v}

def fault : Comp ε σ α := fun _ => .error .fault

def giveUp (e : ε) : Comp ε σ α := fun _ => .error (.gaveUp e)

/-- No fault, and `Q` of the result and the state. -/
def Meets (x : Comp ε σ α) (Q : α → σ → Prop) (s : σ) : Prop :=
  match x s with
  | .ok (a, s') => Q a s'
  | .error .fault => False
  | .error (.gaveUp _) => True

variable {x : Comp ε σ α} {f : α → Comp ε σ β} {s : σ}

theorem meets_bind {Q : β → σ → Prop} :
    Meets (x >>= f) Q s ↔ Meets x (fun a s' => Meets (f a) Q s') s := by
  have hbind : (x >>= f) s = (x s >>= fun p => f p.1 p.2) := rfl
  rw [Meets, Meets, hbind]
  rcases x s with (_ | e) | ⟨a, s'⟩
  · exact Iff.rfl
  · exact Iff.rfl
  · exact Iff.rfl

theorem meets_pure {Q : α → σ → Prop} {a : α} : Meets (pure a : Comp ε σ α) Q s ↔ Q a s :=
  Iff.rfl

theorem meets_get {Q : σ → σ → Prop} : Meets (get : Comp ε σ σ) Q s ↔ Q s s := Iff.rfl

theorem meets_modify {Q : PUnit → σ → Prop} {h : σ → σ} :
    Meets (modify h : Comp ε σ PUnit) Q s ↔ Q ⟨⟩ (h s) := Iff.rfl

theorem meets_fault {Q : α → σ → Prop} : Meets (fault : Comp ε σ α) Q s ↔ False := Iff.rfl

theorem meets_giveUp {Q : α → σ → Prop} {e : ε} :
    Meets (giveUp e : Comp ε σ α) Q s ↔ True := Iff.rfl

theorem meets_ite {Q : α → σ → Prop} {p : Prop} [Decidable p] {y : Comp ε σ α} :
    Meets (if p then x else y) Q s ↔ (p → Meets x Q s) ∧ (¬ p → Meets y Q s) := by
  by_cases h : p
  · simp [h]
  · simp [h]

theorem Meets.mono {Q Q' : α → σ → Prop} (h : Meets x Q s) (hQ : ∀ a s', Q a s' → Q' a s') :
    Meets x Q' s := by
  rw [Meets] at h ⊢
  rcases hx : x s with (_ | e) | ⟨a, s'⟩
  · rw [hx] at h
    exact h
  · trivial
  · rw [hx] at h
    exact hQ a s' h

theorem Meets.of_ok {Q : α → σ → Prop} {a : α} {s' : σ} (h : Meets x Q s)
    (hx : x s = .ok (a, s')) : Q a s' := by
  rwa [Meets, hx] at h

theorem Meets.with_eq {Q : α → σ → Prop} (h : Meets x Q s) :
    Meets x (fun a s' => Q a s' ∧ x s = .ok (a, s')) s := by
  rw [Meets] at h ⊢
  rcases hx : x s with (_ | e) | ⟨a, s'⟩
  · rw [hx] at h
    exact h
  · trivial
  · rw [hx] at h
    exact ⟨h, rfl⟩

/-! ## What stays -/

/-- A run that returns leaves `f` of the state as it is. -/
def Preserves {γ : Type v} (f : σ → γ) (x : Comp ε σ α) : Prop :=
  ∀ s a s', x s = .ok (a, s') → f s' = f s

section Preserves

variable {γ : Type v} {h : σ → γ}

theorem preserves_bind (hx : Preserves h x) (hf : ∀ a, Preserves h (f a)) :
    Preserves h (x >>= f) := by
  intro s b s'' hrun
  have hbind : (x >>= f) s = (x s >>= fun p => f p.1 p.2) := rfl
  rw [hbind] at hrun
  rcases hs : x s with (_ | e) | ⟨a, s'⟩
  · rw [hs] at hrun
    exact nomatch hrun
  · rw [hs] at hrun
    exact nomatch hrun
  · rw [hs] at hrun
    exact (hf a s' b s'' hrun).trans (hx s a s' hs)

theorem preserves_pure {a : α} : Preserves h (pure a : Comp ε σ α) := by
  intro s b s' hrun
  cases hrun
  rfl

theorem preserves_get : Preserves h (get : Comp ε σ σ) := by
  intro s b s' hrun
  cases hrun
  rfl

theorem preserves_modify {g : σ → σ} (hg : ∀ s, h (g s) = h s) :
    Preserves h (modify g : Comp ε σ PUnit) := by
  intro s b s' hrun
  cases hrun
  exact hg s

theorem preserves_fault : Preserves h (fault : Comp ε σ α) := fun _ _ _ hrun => nomatch hrun

theorem preserves_giveUp {e : ε} : Preserves h (giveUp e : Comp ε σ α) :=
  fun _ _ _ hrun => nomatch hrun

theorem preserves_ite {p : Prop} [Decidable p] {y : Comp ε σ α} (hx : Preserves h x)
    (hy : Preserves h y) : Preserves h (if p then x else y) := by
  by_cases hp : p
  · rwa [if_pos hp]
  · rwa [if_neg hp]

end Preserves

def faults (x : Comp ε σ α) (s : σ) : Bool :=
  match x s with
  | .error .fault => true
  | _ => false

theorem not_meets_of_faults {Q : α → σ → Prop} (h : faults x s = true) : ¬ Meets x Q s := by
  intro hmeets
  rw [faults] at h
  rw [Meets] at hmeets
  rcases hx : x s with (_ | e) | ⟨a, s'⟩
  · rw [hx] at hmeets
    exact hmeets
  · rw [hx] at h
    exact absurd h Bool.false_ne_true
  · rw [hx] at h
    exact absurd h Bool.false_ne_true

end Faults
