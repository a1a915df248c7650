import Mathlib.Order.Basic
import Mathlib.Tactic.Common

/-!
# Loops that may run into a fault

A loop whose body answers with a fault, with the next state or with a result. `iterate` runs
it under a fuel bound that a variant makes large enough.
-/

namespace Checked

universe u v w

variable {ε : Type u} {σ β : Type v}

/-- No fault. -/
def Safe (x : Except ε β) : Prop := ∃ b, x = .ok b

theorem safe_ok (b : β) : Safe (Except.ok b : Except ε β) := ⟨b, rfl⟩

theorem not_safe_error (e : ε) : ¬ Safe (Except.error e : Except ε β) := by
  rintro ⟨b, hb⟩
  cases hb

theorem ok_bind {ε α β : Type} (a : α) (f : α → Except ε β) : Except.ok a >>= f = f a := rfl

theorem bind_eq_ok {ε α β : Type} {x : Except ε α} {f : α → Except ε β} {b : β} :
    x >>= f = .ok b ↔ ∃ a, x = .ok a ∧ f a = .ok b := by
  cases x with
  | error e =>
    constructor
    · intro h
      cases h
    · rintro ⟨a, h, -⟩
      cases h
  | ok a =>
    constructor
    · exact fun h => ⟨a, rfl, h⟩
    · rintro ⟨_, h, hf⟩
      cases h
      exact hf

/-- Give up with a fault unless `p` holds. -/
def require (p : Prop) [Decidable p] (e : ε) : Except ε Unit := if p then .ok () else .error e

theorem require_pos {p : Prop} [Decidable p] {e : ε} (h : p) : require p e = .ok () := if_pos h

theorem require_neg {p : Prop} [Decidable p] {e : ε} (h : ¬ p) : require p e = .error e := if_neg h

theorem safe_require_bind {β : Type} {p : Prop} [Decidable p] {e : ε}
    {f : Unit → Except ε β} : Safe (require p e >>= f) ↔ p ∧ Safe (f ()) := by
  by_cases h : p
  · rw [require_pos h, and_iff_right h]
    rfl
  · rw [require_neg h]
    exact iff_of_false (not_safe_error e) fun hp => h hp.1

theorem safe_ite {p : Prop} [Decidable p] {x y : Except ε β} :
    Safe (if p then x else y) ↔ (p → Safe x) ∧ (¬ p → Safe y) := by
  by_cases h : p
  · simp [h]
  · simp [h]

theorem safe_pure (b : β) : Safe (pure b : Except ε β) := ⟨b, rfl⟩

theorem safe_return {p : Prop} [Decidable p] {b : β} {y : Except ε β} :
    Safe (if p then pure b else y) ↔ (¬ p → Safe y) := by
  rw [safe_ite, and_iff_right fun _ => safe_pure b]

def iterate (body : σ → Except ε (σ ⊕ β)) (stuck : ε) : Nat → σ → Except ε β
  | 0, _ => .error stuck
  | n + 1, s =>
    match body s with
    | .error e => .error e
    | .ok (.inl s') => iterate body stuck n s'
    | .ok (.inr b) => .ok b

def Along (body : σ → Except ε (σ ⊕ β)) (P : σ → Prop) : Nat → σ → Prop
  | 0, _ => True
  | n + 1, s => P s ∧ ∀ s', body s = .ok (.inl s') → Along body P n s'

variable {body : σ → Except ε (σ ⊕ β)} {stuck : ε}

theorem iterate_ok_iff {P : σ → Prop} (μ : σ → Nat)
    (hμ : ∀ s s', body s = .ok (.inl s') → μ s' < μ s) (hP : ∀ s, Safe (body s) ↔ P s) (n : Nat)
    (s : σ) (hn : μ s < n) : Safe (iterate body stuck n s) ↔ Along body P n s := by
  induction n generalizing s with
  | zero => exact absurd hn (Nat.not_lt_zero _)
  | succ n ih =>
    rw [iterate, Along, ← hP]
    cases hb : body s with
    | error e => exact iff_of_false (not_safe_error e) fun h => not_safe_error e h.1
    | ok r =>
      rw [and_iff_right (safe_ok r)]
      cases r with
      | inl s' =>
        rw [ih s' (by have := hμ s s' hb; omega)]
        constructor
        · intro h s'' heq
          cases heq
          exact h
        · intro h
          exact h s' rfl
      | inr b => exact iff_of_true (safe_ok b) fun s' h => nomatch h

theorem safe_bind {β γ : Type} {x : Except ε β} {f : β → Except ε γ} {b : β} (h : x = .ok b) :
    Safe (x >>= f) ↔ Safe (f b) := by
  rw [h]
  rfl

theorem safe_bind_iff {β γ : Type} {x : Except ε β} {f : β → Except ε γ}
    (hf : ∀ b, Safe (f b)) : Safe (x >>= f) ↔ Safe x := by
  cases x with
  | error e => exact iff_of_false (not_safe_error e) (not_safe_error e)
  | ok b => exact iff_of_true (hf b) (safe_ok b)

/-- What holds of the result, if there is one. -/
def Gives (Q : β → Prop) (x : Except ε β) : Prop := ∀ b, x = .ok b → Q b

section Gives

variable {β γ : Type} {R : β → Prop} {Q : γ → Prop}

theorem Gives.pure {c : γ} (h : Q c) : Gives Q (Pure.pure c : Except ε γ) := by
  intro b hb
  cases hb
  exact h

theorem Gives.bind {x : Except ε β} {f : β → Except ε γ} (h : Gives R x)
    (hf : ∀ b, R b → Gives Q (f b)) : Gives Q (x >>= f) := by
  intro c hc
  cases x with
  | error e => cases hc
  | ok b => exact hf b (h b rfl) c hc

theorem Gives.require {p : Prop} [Decidable p] {e : ε} {f : Unit → Except ε γ}
    (h : p → Gives Q (f ())) : Gives Q (Checked.require p e >>= f) := by
  by_cases hp : p
  · rw [require_pos hp]
    exact h hp
  · rw [require_neg hp]
    intro c hc
    cases hc

theorem Gives.ite {p : Prop} [Decidable p] {x y : Except ε γ} (h : p → Gives Q x)
    (h' : ¬ p → Gives Q y) : Gives Q (if p then x else y) := by
  by_cases hp : p
  · rw [if_pos hp]
    exact h hp
  · rw [if_neg hp]
    exact h' hp

theorem Gives.mono {Q' : γ → Prop} {x : Except ε γ} (h : Gives Q x) (hQ : ∀ c, Q c → Q' c) :
    Gives Q' x := fun c hc => hQ c (h c hc)

theorem Gives.ok {c : γ} (h : Q c) : Gives Q (Except.ok c : Except ε γ) := Gives.pure h

end Gives

/-- The rule for a loop: what holds at the start and is kept by every turn holds when the last
turn begins. -/
theorem iterate_gives {I : σ → Prop} {Q : β → Prop}
    (hstep : ∀ s s', I s → body s = .ok (.inl s') → I s')
    (hlast : ∀ s b, I s → body s = .ok (.inr b) → Q b) (n : Nat) {s : σ} (hs : I s) :
    Gives Q (iterate body stuck n s) := by
  intro b hb
  induction n generalizing s with
  | zero => cases hb
  | succ n ih =>
    rw [iterate] at hb
    cases hbody : body s with
    | error e =>
      rw [hbody] at hb
      cases hb
    | ok r =>
      rw [hbody] at hb
      cases r with
      | inl s' => exact ih (hstep s s' hs hbody) hb
      | inr b' =>
        cases hb
        exact hlast s b hs hbody

/-! ## Two runs -/

def Agrees {β : Type v} {γ : Type w} (S : β → γ → Prop) : Except ε β → Except ε γ → Prop
  | .error e, .error e' => e = e'
  | .ok b, .ok c => S b c
  | _, _ => False

theorem Agrees.mono {β : Type v} {γ : Type w} {S S' : β → γ → Prop} {x : Except ε β}
    {y : Except ε γ} (h : Agrees S x y) (hS : ∀ b c, S b c → S' b c) : Agrees S' x y := by
  cases x with
  | error e =>
    cases y with
    | error e' => exact h
    | ok c => exact h.elim
  | ok b =>
    cases y with
    | error e' => exact h.elim
    | ok c => exact hS b c h

theorem Agrees.and_gives {β : Type v} {γ : Type w} {S : β → γ → Prop} {Q : β → Prop}
    {x : Except ε β} {y : Except ε γ} (h : Agrees S x y) (hx : ∀ b, x = .ok b → Q b) :
    Agrees (fun b c => S b c ∧ Q b) x y := by
  cases x with
  | error e =>
    cases y with
    | error e' => exact h
    | ok c => exact h.elim
  | ok b =>
    cases y with
    | error e' => exact h.elim
    | ok c => exact ⟨h, hx b rfl⟩

theorem Agrees.bind {α β γ δ : Type} {R : α → β → Prop} {S : γ → δ → Prop} {x : Except ε α}
    {y : Except ε β} {f : α → Except ε γ} {g : β → Except ε δ} (h : Agrees R x y)
    (hfg : ∀ a b, R a b → Agrees S (f a) (g b)) : Agrees S (x >>= f) (y >>= g) := by
  cases x with
  | error e =>
    cases y with
    | error e' => exact h
    | ok c => exact h.elim
  | ok b =>
    cases y with
    | error e' => exact h.elim
    | ok c => exact hfg b c h

theorem Agrees.require {γ δ : Type} {S : γ → δ → Prop} {p : Prop} [Decidable p] {e : ε}
    {f : Unit → Except ε γ} {g : Unit → Except ε δ} (h : p → Agrees S (f ()) (g ())) :
    Agrees S (Checked.require p e >>= f) (Checked.require p e >>= g) := by
  by_cases hp : p
  · rw [require_pos hp]
    exact h hp
  · rw [require_neg hp]
    exact rfl

theorem Agrees.ite {β : Type v} {γ : Type w} {S : β → γ → Prop} {p : Prop} [Decidable p]
    {x x' : Except ε β} {y y' : Except ε γ} (h : p → Agrees S x y)
    (h' : ¬ p → Agrees S x' y') :
    Agrees S (if p then x else x') (if p then y else y') := by
  by_cases hp : p
  · rw [if_pos hp, if_pos hp]
    exact h hp
  · rw [if_neg hp, if_neg hp]
    exact h' hp

theorem iterate_related {σ τ β γ : Type} {body : σ → Except ε (σ ⊕ β)}
    {body' : τ → Except ε (τ ⊕ γ)} {stuck : ε} {R : σ → τ → Prop} {S : β → γ → Prop}
    (P : σ → Prop) (Q : τ → Prop)
    (h : ∀ s t, R s t → P s → Q t → Agrees (Sum.LiftRel R S) (body s) (body' t)) (n : Nat)
    (s : σ) (t : τ) (hst : R s t) (hP : Along body P n s) (hQ : Along body' Q n t) :
    Agrees S (iterate body stuck n s) (iterate body' stuck n t) := by
  induction n generalizing s t with
  | zero => exact rfl
  | succ n ih =>
    have hbody := h s t hst hP.1 hQ.1
    rw [iterate, iterate]
    cases hb : body s with
    | error e =>
      cases hb' : body' t with
      | error e' =>
        rw [hb, hb'] at hbody
        exact hbody
      | ok r =>
        rw [hb, hb'] at hbody
        exact hbody.elim
    | ok r =>
      cases hb' : body' t with
      | error e' =>
        rw [hb, hb'] at hbody
        exact hbody.elim
      | ok r' =>
        rw [hb, hb'] at hbody
        cases hbody with
        | inl hrel => exact ih _ _ hrel (hP.2 _ hb) (hQ.2 _ hb')
        | inr hrel => exact hrel

theorem along_true {σ β : Type} {body : σ → Except ε (σ ⊕ β)} {P : σ → Prop}
    (h : ∀ s, P s) (n : Nat) (s : σ) : Along body P n s := by
  induction n generalizing s with
  | zero => trivial
  | succ n ih => exact ⟨h s, fun s' _ => ih s'⟩

end Checked
