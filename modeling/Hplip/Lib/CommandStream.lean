import Mathlib.Data.List.Basic

/-!
# Streams of self-delimiting commands

A decoder that reads one command off the front of a stream and updates a state,
and the relation saying that a stream takes it from one state to another. An
encoder that appends one command per iteration keeps `Takes` as its invariant
(`Takes.snoc`), and `Takes.decode_eq` turns the invariant into a statement
about the decoder that runs until the stream is empty.
-/

namespace CommandStream

universe u v

variable {σ : Type u} {β : Type v}

/-- A decoder of one command: the new state and what is left of the stream. -/
abbrev Step (σ : Type u) (β : Type v) := σ → List β → Option (σ × List β)

def decode (step : Step σ β) : Nat → σ → List β → Option σ
  | _, s, [] => some s
  | 0, _, _ :: _ => none
  | fuel + 1, s, b :: bs =>
    match step s (b :: bs) with
    | some (s', rest) => decode step fuel s' rest
    | none => none

/-- The stream takes the decoder from the first state to the last, command by
command; each command is recognized whatever follows it. -/
inductive Takes (step : Step σ β) : σ → List β → σ → Prop
  | nil (s : σ) : Takes step s [] s
  | cons {s s' s'' : σ} {c bs : List β} (hne : c ≠ [])
      (hc : ∀ rest, step s (c ++ rest) = some (s', rest))
      (hbs : Takes step s' bs s'') : Takes step s (c ++ bs) s''

variable {step : Step σ β}

theorem Takes.append {s s' s'' : σ} {bs cs : List β} (h : Takes step s bs s')
    (h' : Takes step s' cs s'') : Takes step s (bs ++ cs) s'' := by
  induction h with
  | nil _ => exact h'
  | cons hne hc _ ih =>
    rw [List.append_assoc]
    exact .cons hne hc (ih h')

theorem Takes.snoc {s s' s'' : σ} {bs c : List β} (h : Takes step s bs s')
    (hne : c ≠ []) (hc : ∀ rest, step s' (c ++ rest) = some (s'', rest)) :
    Takes step s (bs ++ c) s'' := by
  have hlast : Takes step s' (c ++ []) s'' := .cons hne hc (.nil s'')
  rw [List.append_nil] at hlast
  exact h.append hlast

theorem Takes.decode_eq {s s' : σ} {bs : List β} (h : Takes step s bs s') :
    ∀ {fuel : Nat}, bs.length ≤ fuel → decode step fuel s bs = some s' := by
  induction h with
  | nil s =>
    intro fuel _
    cases fuel <;> rfl
  | @cons s s' s'' c bs hne hc _ ih =>
    intro fuel hfuel
    obtain ⟨b, c, rfl⟩ := List.exists_cons_of_ne_nil hne
    rw [List.length_append, List.length_cons] at hfuel
    obtain ⟨fuel, rfl⟩ := Nat.exists_eq_add_of_lt (Nat.lt_of_lt_of_le (by omega) hfuel :
      0 < fuel)
    rw [Nat.zero_add] at hfuel ⊢
    have hstep := hc bs
    rw [List.cons_append] at hstep ⊢
    rw [decode, hstep]
    exact ih (by omega)

end CommandStream
