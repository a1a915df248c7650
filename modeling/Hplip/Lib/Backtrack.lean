import Mathlib.Data.List.Basic
import Mathlib.Tactic.Common

/-!
# Backtracking matchers

A matcher lists what it can match at the front of a text, each with the text behind it, in the
order in which it would try them: what comes later is come back to when the rest of a pattern does
not match. A pattern matches what comes first.
-/

def Matcher (τ : Type) (α : Type) : Type := List τ → List (α × List τ)

namespace Matcher

variable {τ α β : Type}

instance : Monad (Matcher τ) where
  pure a s := [(a, s)]
  bind m f s := (m s).flatMap fun r => f r.1 r.2

def first (m : Matcher τ α) (s : List τ) : Option (α × List τ) := (m s).head?

def literal (fold : τ → τ) [DecidableEq τ] (w : List τ) : Matcher τ Unit := fun s =>
  if (s.take w.length).map fold = w then [((), s.drop w.length)] else []

def orElse (m n : Matcher τ α) : Matcher τ α := fun s => m s ++ n s

/-- The beginnings of a text that have a property in all elements, the shortest one first. -/
def prefixes (p : τ → Bool) : List τ → List (List τ × List τ)
  | [] => [([], [])]
  | c :: s => ([], c :: s) ::
      if p c then (prefixes p s).map fun r => (c :: r.1, r.2) else []

/-- As few elements as can be; `k` is how many there may be. -/
def reluctant (p : τ → Bool) (k : Nat → Bool) : Matcher τ (List τ) := fun s =>
  (prefixes p s).filter fun r => k r.1.length

def greedy (p : τ → Bool) (k : Nat → Bool) : Matcher τ (List τ) := fun s =>
  (reluctant p k s).reverse

/-- A number of elements with a property. -/
def Run (p : τ → Bool) (k : Nat → Bool) (a : List τ) : Prop :=
  (∀ c ∈ a, p c = true) ∧ k a.length = true

/-! ## What comes first -/

variable {m n : Matcher τ α} {f : α → Matcher τ β} {s : List τ}

@[simp] theorem first_pure (a : α) (s : List τ) : first (pure a : Matcher τ α) s = some (a, s) := rfl

theorem first_bind (m : Matcher τ α) (f : α → Matcher τ β) (s : List τ) :
    first (m >>= f) s = (m s).findSome? fun r => first (f r.1) r.2 :=
  List.head?_flatMap

theorem first_orElse (m n : Matcher τ α) (s : List τ) :
    first (orElse m n) s = (first m s).or (first n s) :=
  List.head?_append

theorem first_eq_none : first m s = none ↔ ∀ r, r ∉ m s :=
  List.head?_eq_none_iff.trans List.eq_nil_iff_forall_not_mem

theorem mem_of_first {r : α × List τ} (h : first m s = some r) : r ∈ m s :=
  List.mem_of_mem_head? h

@[simp] theorem mem_pure {a b : α} {t : List τ} :
    (b, t) ∈ (pure a : Matcher τ α) s ↔ b = a ∧ t = s :=
  List.mem_singleton.trans (iff_of_eq (Prod.mk.injEq ..))

theorem mem_bind {r : β × List τ} :
    r ∈ (m >>= f) s ↔ ∃ a t, (a, t) ∈ m s ∧ r ∈ f a t :=
  List.mem_flatMap.trans Prod.exists

theorem mem_orElse {r : α × List τ} : r ∈ orElse m n s ↔ r ∈ m s ∨ r ∈ n s :=
  List.mem_append

theorem first_bind_of_total (hf : ∀ a t, first (f a) t ≠ none) :
    first (m >>= f) s = (first m s).bind fun r => first (f r.1) r.2 := by
  rw [first_bind, first]
  cases m s with
  | nil => rfl
  | cons r l =>
    obtain ⟨b, hb⟩ := Option.ne_none_iff_exists'.mp (hf r.1 r.2)
    simp [hb]

theorem first_bind_pure (g : α → β) :
    first (m >>= fun a => pure (g a)) s = (first m s).map fun r => (g r.1, r.2) := by
  rw [first_bind_of_total (fun a t h => by cases h), Option.map_eq_bind]
  rfl

theorem exists_mem_bind (hf : ∀ a t, first (f a) t ≠ none) :
    (∃ r, r ∈ (m >>= f) s) ↔ ∃ r, r ∈ m s := by
  constructor
  · rintro ⟨r, hr⟩
    obtain ⟨a, t, hmem, -⟩ := mem_bind.mp hr
    exact ⟨_, hmem⟩
  · rintro ⟨⟨a, t⟩, hmem⟩
    obtain ⟨r, hr⟩ := Option.ne_none_iff_exists'.mp (hf a t)
    exact ⟨r, mem_bind.mpr ⟨a, t, hmem, mem_of_first hr⟩⟩

theorem findSome?_eq_some_of_pairwise {r : α → α → Prop} (hr : ∀ a b, r a b → ¬ r b a)
    {l : List α} (hl : l.Pairwise r) {g : α → Option β} {b : β} :
    l.findSome? g = some b ↔ ∃ a ∈ l, g a = some b ∧ ∀ x ∈ l, r x a → g x = none := by
  rw [List.findSome?_eq_some_iff]
  constructor
  · rintro ⟨l₁, a, l₂, rfl, ha, hbefore⟩
    refine ⟨a, by simp, ha, ?_⟩
    intro x hx hxa
    rcases List.mem_append.mp hx with hx | hx
    · exact hbefore x hx
    · -- what is not before `a` is not less
      obtain ⟨hcons, -⟩ := List.pairwise_cons.mp (List.pairwise_append.mp hl).2.1
      rcases List.mem_cons.mp hx with rfl | hx
      · exact absurd hxa (hr x x hxa)
      · exact absurd hxa (hr a x (hcons x hx))
  · rintro ⟨a, ha, hg, hless⟩
    obtain ⟨l₁, l₂, rfl⟩ := List.append_of_mem ha
    refine ⟨l₁, a, l₂, rfl, hg, ?_⟩
    intro x hx
    exact hless x (List.mem_append_left _ hx)
      ((List.pairwise_append.mp hl).2.2 x hx a (List.mem_cons_self ..))

/-! ## Repetitions -/

theorem mem_prefixes {p : τ → Bool} {a b : List τ} :
    (a, b) ∈ prefixes p s ↔ s = a ++ b ∧ ∀ c ∈ a, p c = true := by
  induction s generalizing a with
  | nil =>
    rw [prefixes, List.mem_singleton, Prod.mk.injEq]
    constructor
    · rintro ⟨rfl, rfl⟩
      simp
    · rintro ⟨h, -⟩
      simpa using h.symm
  | cons c s ih =>
    rw [prefixes, List.mem_cons, Prod.mk.injEq]
    cases a with
    | nil =>
      have hno : (([] : List τ), b) ∉
          if p c = true then (prefixes p s).map fun r => (c :: r.1, r.2) else [] := by
        split <;> simp
      rw [or_iff_left hno]
      exact ⟨fun h => ⟨h.2.symm, fun _ h => nomatch h⟩, fun h => ⟨rfl, h.1.symm⟩⟩
    | cons d a =>
      by_cases hc : p c = true
      · simp only [hc, if_true, List.mem_map, Prod.mk.injEq, Prod.exists, List.cons.injEq,
          List.cons_append, List.forall_mem_cons]
        constructor
        · rintro (⟨h, -⟩ | ⟨a', b', hmem, ⟨rfl, rfl⟩, rfl⟩)
          · cases h
          · obtain ⟨rfl, hall⟩ := ih.mp hmem
            exact ⟨⟨rfl, rfl⟩, hc, hall⟩
        · rintro ⟨⟨rfl, rfl⟩, -, hall⟩
          exact .inr ⟨a, b, ih.mpr ⟨rfl, hall⟩, ⟨rfl, rfl⟩, rfl⟩
      · simp only [hc, List.cons_append, List.cons.injEq]
        constructor
        · rintro (⟨h, -⟩ | h)
          · cases h
          · simp at h
        · rintro ⟨⟨rfl, -⟩, hall⟩
          exact absurd (hall c (List.mem_cons_self ..)) hc

theorem prefixes_pairwise (p : τ → Bool) (s : List τ) :
    (prefixes p s).Pairwise fun r r' => r.1.length < r'.1.length := by
  induction s with
  | nil => exact List.pairwise_singleton ..
  | cons c s ih =>
    rw [prefixes]
    refine List.pairwise_cons.mpr ⟨?_, ?_⟩
    · intro r hr
      split at hr
      · obtain ⟨r', -, rfl⟩ := List.mem_map.mp hr
        simp
      · cases hr
    · split
      · exact ih.map _ fun r r' h => by simpa using h
      · exact List.Pairwise.nil

variable {p : τ → Bool} {k : Nat → Bool} {g : List τ → Matcher τ β} {r : β × List τ}

theorem mem_reluctant {a b : List τ} : (a, b) ∈ reluctant p k s ↔ s = a ++ b ∧ Run p k a := by
  rw [reluctant, List.mem_filter, mem_prefixes, Run, and_assoc]

/-- **What few elements match**: the shortest run behind which the rest matches. -/
theorem first_reluctant_eq_some : first (reluctant p k >>= g) s = some r ↔
    ∃ a b, s = a ++ b ∧ Run p k a ∧ first (g a) b = some r ∧
      ∀ a' b', s = a' ++ b' → Run p k a' → a'.length < a.length → first (g a') b' = none := by
  have hl : (reluctant p k s).Pairwise fun r r' => r.1.length < r'.1.length :=
    (prefixes_pairwise p s).filter _
  rw [first_bind, findSome?_eq_some_of_pairwise (fun a b h => by omega) hl]
  simp only [Prod.exists, Prod.forall, mem_reluctant, and_assoc, and_imp]

/-- **What many elements match**: the longest run behind which the rest matches. -/
theorem first_greedy_eq_some : first (greedy p k >>= g) s = some r ↔
    ∃ a b, s = a ++ b ∧ Run p k a ∧ first (g a) b = some r ∧
      ∀ a' b', s = a' ++ b' → Run p k a' → a.length < a'.length → first (g a') b' = none := by
  have hl : (greedy p k s).Pairwise fun r r' => r'.1.length < r.1.length :=
    List.pairwise_reverse.mpr ((prefixes_pairwise p s).filter _)
  rw [first_bind, findSome?_eq_some_of_pairwise (fun a b h => by omega) hl]
  simp only [Prod.exists, Prod.forall, greedy, List.mem_reverse, mem_reluctant, and_assoc, and_imp]

theorem mem_greedy {a b : List τ} : (a, b) ∈ greedy p k s ↔ s = a ++ b ∧ Run p k a := by
  rw [greedy, List.mem_reverse, mem_reluctant]

theorem mem_greedy_bind : r ∈ (greedy p k >>= g) s ↔
    ∃ a b, s = a ++ b ∧ Run p k a ∧ r ∈ g a b := by
  simp only [mem_bind, mem_greedy, and_assoc]

theorem mem_reluctant_bind : r ∈ (reluctant p k >>= g) s ↔
    ∃ a b, s = a ++ b ∧ Run p k a ∧ r ∈ g a b := by
  simp only [mem_bind, mem_reluctant, and_assoc]

theorem first_greedy_stop {a b : List τ} (hrun : Run p k a) (hstop : ∀ c ∈ b.head?, p c = false)
    (hg : first (g a) b = some r) : first (greedy p k >>= g) (a ++ b) = some r := by
  refine first_greedy_eq_some.mpr ⟨a, b, rfl, hrun, hg, ?_⟩
  intro a' b' heq hrun' hlonger
  obtain ⟨d, rfl⟩ := List.prefix_of_prefix_length_le ⟨b, rfl⟩ ⟨b', heq.symm⟩ (Nat.le_of_lt hlonger)
  cases d with
  | nil => simp at hlonger
  | cons c d =>
    rw [List.append_assoc, List.append_cancel_left_eq] at heq
    have hc : p c = false := hstop c (by rw [heq]; rfl)
    rw [hrun'.1 c (by simp)] at hc
    cases hc

/-! ## Fixed text -/

variable [DecidableEq τ] {fold : τ → τ} {w : List τ} {u : Unit → Matcher τ β}

theorem first_literal_append {w' t : List τ} (h : w'.map fold = w) :
    first (literal fold w >>= u) (w' ++ t) = first (u ()) t := by
  have hlength : w'.length = w.length := by rw [← h, List.length_map]
  rw [first_bind, literal, List.take_left' hlength, List.drop_left' hlength, if_pos h]
  simp

theorem mem_literal {t : List τ} :
    ((), t) ∈ literal fold w s ↔ ∃ w', s = w' ++ t ∧ w'.map fold = w := by
  rw [literal]
  constructor
  · intro h
    split at h
    · rename_i hw
      rw [List.mem_singleton, Prod.mk.injEq] at h
      exact ⟨_, by rw [h.2, List.take_append_drop], hw⟩
    · cases h
  · rintro ⟨w', rfl, hw⟩
    have hlength : w'.length = w.length := by rw [← hw, List.length_map]
    rw [List.take_left' hlength, List.drop_left' hlength, if_pos hw]
    exact List.mem_singleton_self _

theorem mem_literal_bind : r ∈ (literal fold w >>= u) s ↔
    ∃ w' t, s = w' ++ t ∧ w'.map fold = w ∧ r ∈ u () t := by
  rw [mem_bind]
  constructor
  · rintro ⟨a, t, hmem, hr⟩
    obtain ⟨w', heq, hw⟩ := mem_literal.mp hmem
    exact ⟨w', t, heq, hw, hr⟩
  · rintro ⟨w', t, heq, hw, hr⟩
    exact ⟨(), t, mem_literal.mpr ⟨w', heq, hw⟩, hr⟩

theorem first_literal_cons_of_ne {c d : τ} (h : fold c ≠ d) :
    first (literal fold (d :: w) >>= u) (c :: s) = none := by
  refine first_eq_none.mpr fun r hr => ?_
  obtain ⟨w', t, heq, hw, -⟩ := mem_literal_bind.mp hr
  cases w' with
  | nil => cases hw
  | cons e w' =>
    rw [(List.cons.inj heq).1] at h
    exact h (List.cons.inj hw).1

theorem first_literal_eq_some : first (literal fold w >>= u) s = some r ↔
    ∃ w' t, s = w' ++ t ∧ w'.map fold = w ∧ first (u ()) t = some r := by
  constructor
  · intro h
    obtain ⟨w', t, rfl, hw, -⟩ := mem_literal_bind.mp (mem_of_first h)
    rw [first_literal_append hw] at h
    exact ⟨w', t, rfl, hw, h⟩
  · rintro ⟨w', t, rfl, hw, h⟩
    rwa [first_literal_append hw]

end Matcher
