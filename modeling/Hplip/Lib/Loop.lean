import Mathlib.Logic.Basic
import Mathlib.Data.Sum.Basic
import Mathlib.Logic.Function.Iterate
import Mathlib.Order.Basic

/-!
# Total correctness of fuelled loops

A C loop is modelled as a body iterated under a fuel bound; `none` means that
the run got stuck: the fuel was used up, a bound was missed, an assertion
failed. `Returns x Q` is the total-correctness reading of such a computation:
it ends, and what it ends with satisfies `Q`.

- `Returns.bind`, `Returns.mono`: sequential composition and consequence;
- `foldlM_range_eq`, `Returns.foldlM_range`: the rules for a counted loop;
- `loop`: iteration with an early exit (`.inr`), `Returns.loop` its rule: an
  invariant, and a variant that every iteration decreases; `loop_exits` the rule
  for a loop that is known to be left;
- `whileDo`: the plain `while (cond) body`, `Returns.whileDo` its rule;
- `whileDo_eq_iterate`: a loop whose number of rounds is known;
- `loop_congr`, `whileDo_congr`: two loops whose bodies agree wherever an
  invariant holds return the same thing (the two-run reading);
- `rounds`: an iteration that may go on for ever, seen up to a number of rounds;
  `Along` a condition on the states it goes through, `rounds_invariant` and
  `rounds_simulates` its rules for one run and for two, `rounds_returns` the one
  for an iteration that is left; `Reaches` for a number of rounds on the way;
- `Leaves`: a computation with two ways out, each with its own postcondition.
-/

namespace Loop

universe u

variable {α β σ : Type u}

/-! ## Returning with a postcondition -/

/-- `x` ends, and its value satisfies `Q`. -/
def Returns (x : Option α) (Q : α → Prop) : Prop :=
  ∃ a, x = some a ∧ Q a

theorem Returns.pure {Q : α → Prop} {a : α} (h : Q a) : Returns (some a) Q :=
  ⟨a, rfl, h⟩

theorem Returns.mono {x : Option α} {P Q : α → Prop} (h : Returns x P)
    (hPQ : ∀ a, P a → Q a) : Returns x Q := by
  obtain ⟨a, hx, hP⟩ := h
  exact ⟨a, hx, hPQ a hP⟩

theorem Returns.bind {x : Option α} {f : α → Option β} {P : α → Prop}
    {Q : β → Prop} (hx : Returns x P) (hf : ∀ a, P a → Returns (f a) Q) :
    Returns (x >>= f) Q := by
  obtain ⟨a, rfl, hP⟩ := hx
  exact hf a hP

theorem Returns.ite {c : Prop} [Decidable c] {x y : Option α} {Q : α → Prop}
    (hx : c → Returns x Q) (hy : ¬ c → Returns y Q) :
    Returns (if c then x else y) Q := by
  by_cases h : c
  · rw [if_pos h]
    exact hx h
  · rw [if_neg h]
    exact hy h

theorem Returns.of_eq_some {x : Option α} {Q : α → Prop} {a : α}
    (h : Returns x Q) (hx : x = some a) : Q a := by
  obtain ⟨b, hb, hQ⟩ := h
  rw [hx] at hb
  cases hb
  exact hQ

/-- Give up unless `p` holds: a run-time check, or an access that has to stay
inside its buffer. -/
def check (p : Prop) [Decidable p] : Option PUnit.{u + 1} :=
  if p then some ⟨⟩ else none

theorem check_pos {p : Prop} [Decidable p] (h : p) : check p = some ⟨⟩ := if_pos h

theorem Returns.check {p : Prop} [Decidable p] {f : PUnit → Option β} {Q : β → Prop}
    (h : p) (hf : Returns (f ⟨⟩) Q) : Returns (Loop.check p >>= f) Q := by
  rw [check_pos h]
  exact hf

theorem of_check {p : Prop} [Decidable p] {f : PUnit → Option β} {b : β}
    (h : (check p >>= f) = some b) : p ∧ f ⟨⟩ = some b := by
  by_cases hp : p
  · rw [check_pos hp] at h
    exact ⟨hp, h⟩
  · rw [check, if_neg hp] at h
    cases h

/-! ## Counted loops -/

theorem foldlM_range_eq {body : σ → Nat → Option σ} (G : Nat → Option σ) {n : Nat} {s : σ}
    (hs : G 0 = some s) (hstep : ∀ k < n, (G k).bind (body · k) = G (k + 1)) :
    (List.range n).foldlM body s = G n := by
  induction n with
  | zero => exact hs.symm
  | succ n ih =>
    rw [List.range_succ, List.foldlM_append, ih fun k hk => hstep k (Nat.lt_succ_of_lt hk),
      ← hstep n (Nat.lt_succ_self n)]
    simp only [List.foldlM_cons, List.foldlM_nil, bind_pure]
    rfl

theorem Returns.foldlM_range {body : σ → Nat → Option σ} (I : Nat → σ → Prop) {n : Nat} {s : σ}
    (hs : I 0 s) (hstep : ∀ k < n, ∀ s, I k s → Returns (body s k) (I (k + 1))) :
    Returns ((List.range n).foldlM body s) (I n) := by
  induction n with
  | zero => exact Returns.pure hs
  | succ n ih =>
    rw [List.range_succ, List.foldlM_append]
    refine Returns.bind (ih fun k hk => hstep k (Nat.lt_succ_of_lt hk)) fun s hs => ?_
    simp only [List.foldlM_cons, List.foldlM_nil, bind_pure]
    exact hstep n (Nat.lt_succ_self n) s hs

theorem foldlM_range_rounds {body : σ → Nat → Option σ} {n : Nat} {s t : σ}
    (h : (List.range n).foldlM body s = some t) {k : Nat} (hk : k < n) :
    ∃ u v, (List.range k).foldlM body s = some u ∧ body u k = some v := by
  induction n generalizing t with
  | zero => exact absurd hk (Nat.not_lt_zero k)
  | succ n ih =>
    rw [List.range_succ, List.foldlM_append] at h
    obtain ⟨u, hu, hlast⟩ := Option.bind_eq_some_iff.mp h
    rcases Nat.lt_succ_iff_lt_or_eq.mp hk with hlt | rfl
    · exact ih hu hlt
    · simp only [List.foldlM_cons, List.foldlM_nil, bind_pure] at hlast
      exact ⟨u, t, hu, hlast⟩

/-! ## Iteration with an early exit -/

/-- Iterate `body` until it answers `.inr`. -/
def loop (body : σ → Option (σ ⊕ β)) : Nat → σ → Option β
  | 0, _ => none
  | fuel + 1, s => do
    match ← body s with
    | .inl s' => loop body fuel s'
    | .inr b => some b

/-- **The loop rule.** An iteration from a state of the invariant either goes on
with the invariant and a smaller variant, or leaves with the postcondition. -/
theorem Returns.loop {body : σ → Option (σ ⊕ β)} {Q : β → Prop}
    (I : σ → Prop) (μ : σ → Nat)
    (step : ∀ s, I s → Returns (body s) fun r =>
      Sum.elim (fun s' => I s' ∧ μ s' < μ s) Q r) :
    ∀ (fuel : Nat) (s : σ), I s → μ s < fuel → Returns (Loop.loop body fuel s) Q := by
  intro fuel
  induction fuel with
  | zero => exact fun s _ h => absurd h (Nat.not_lt_zero _)
  | succ fuel ih =>
    intro s hI hμ
    obtain ⟨r, hr, hQ⟩ := step s hI
    rw [Loop.loop, hr]
    cases r with
    | inl s' => exact ih s' hQ.1 (by have : μ s' < μ s := hQ.2; omega)
    | inr b => exact ⟨b, rfl, hQ⟩

theorem loop_exits {body : σ → Option (σ ⊕ β)} (I : σ → Prop) (Q : β → Prop)
    (step : ∀ s r, I s → body s = some r → Sum.elim I Q r) :
    ∀ {fuel : Nat} {s : σ} {b : β}, I s → loop body fuel s = some b → Q b := by
  intro fuel
  induction fuel with
  | zero =>
    intro s b _ h
    cases h
  | succ fuel ih =>
    intro s b hI h
    rw [loop] at h
    cases hbody : body s with
    | none =>
      rw [hbody] at h
      cases h
    | some r =>
      rw [hbody] at h
      have hstep := step s r hI hbody
      cases r with
      | inl s' => exact ih hstep h
      | inr c =>
        cases h
        exact hstep

theorem loop_congr {body body' : σ → Option (σ ⊕ β)} (I : σ → Prop)
    (step : ∀ s, I s → body s = body' s ∧
      ∀ s', body s = some (.inl s') → I s') :
    ∀ (fuel : Nat) (s : σ), I s → loop body fuel s = loop body' fuel s := by
  intro fuel
  induction fuel with
  | zero => exact fun _ _ => rfl
  | succ fuel ih =>
    intro s hI
    obtain ⟨heq, hnext⟩ := step s hI
    rw [loop, loop, ← heq]
    cases hb : body s with
    | none => rfl
    | some r =>
      cases r with
      | inl s' => exact ih s' (hnext s' hb)
      | inr b => rfl

/-! ## Iteration that may go on for ever -/

/-- The first `n` rounds: the state after them, or what was left with on the way. -/
def rounds (body : σ → σ ⊕ β) : Nat → σ → σ ⊕ β
  | 0, s => .inl s
  | n + 1, s =>
    match body s with
    | .inl s' => rounds body n s'
    | .inr b => .inr b

/-- `P` holds of every state that a round starts from. -/
def Along (body : σ → σ ⊕ β) (P : σ → Prop) : Nat → σ → Prop
  | 0, _ => True
  | n + 1, s => P s ∧
    match body s with
    | .inl s' => Along body P n s'
    | .inr _ => True

instance Along.decidable {body : σ → σ ⊕ β} {P : σ → Prop} [DecidablePred P] :
    ∀ (n : Nat) (s : σ), Decidable (Along body P n s)
  | 0, _ => isTrue trivial
  | n + 1, s =>
    match h : body s with
    | .inl s' =>
      have : Decidable (Along body P n s') := Along.decidable n s'
      decidable_of_iff (P s ∧ Along body P n s') (by rw [Along, h])
    | .inr _ => decidable_of_iff (P s) (by rw [Along, h, and_true])

theorem along_of_forall {body : σ → σ ⊕ β} {P : σ → Prop} (h : ∀ s, P s) :
    ∀ (n : Nat) (s : σ), Along body P n s := by
  intro n
  induction n with
  | zero => exact fun _ => trivial
  | succ n ih =>
    intro s
    refine ⟨h s, ?_⟩
    cases body s with
    | inl s' => exact ih s'
    | inr b => trivial

theorem rounds_invariant {body : σ → σ ⊕ β} {P : σ → Prop} (I : σ → Prop) (Q : β → Prop)
    (step : ∀ s, I s → P s → Sum.elim I Q (body s)) :
    ∀ (n : Nat) (s : σ), I s → Along body P n s → Sum.elim I Q (rounds body n s) := by
  intro n
  induction n with
  | zero => exact fun _ hI _ => hI
  | succ n ih =>
    rintro s hI ⟨hP, hnext⟩
    have hstep := step s hI hP
    rw [rounds]
    generalize body s = x at hstep hnext
    cases x with
    | inl s' => exact ih s' hstep hnext
    | inr b => exact hstep

/-- **The variant rule**: rounds that go on keep the invariant with less left to do, so that the
iteration is left. -/
theorem rounds_returns (body : σ → σ ⊕ β) (I : Nat → σ → Prop) (Q : β → Prop)
    (step : ∀ w s, I w s → Sum.elim (fun s' => ∃ w' < w, I w' s') Q (body s)) :
    ∀ (w : Nat) (s : σ), I w s → ∃ n b, rounds body n s = .inr b ∧ Q b := by
  intro w
  induction w using Nat.strongRecOn with
  | ind w ih =>
    intro s hI
    have hstep := step w s hI
    cases hbody : body s with
    | inl s' =>
      rw [hbody] at hstep
      obtain ⟨w', hlt, hI'⟩ := hstep
      obtain ⟨n, b, hrounds, hQ⟩ := ih w' hlt s' hI'
      exact ⟨n + 1, b, by rw [rounds, hbody]; exact hrounds, hQ⟩
    | inr b =>
      rw [hbody] at hstep
      exact ⟨1, b, by rw [rounds, hbody], hstep⟩

theorem rounds_add {body : σ → σ ⊕ β} {b : β} (k : Nat) :
    ∀ {n : Nat} {s : σ}, rounds body n s = .inr b → rounds body (n + k) s = .inr b := by
  intro n
  induction n with
  | zero => exact fun h => absurd h (by rw [rounds]; exact Sum.inl_ne_inr)
  | succ n ih =>
    intro s h
    rw [Nat.succ_add, rounds]
    rw [rounds] at h
    cases hbody : body s with
    | inl s' =>
      rw [hbody] at h
      exact ih h
    | inr c =>
      rw [hbody] at h
      exact h

theorem rounds_unique {body : σ → σ ⊕ β} {b b' : β} :
    ∀ {n n' : Nat} {s : σ}, rounds body n s = .inr b → rounds body n' s = .inr b' → b = b' := by
  intro n
  induction n with
  | zero => exact fun h _ => absurd h (by rw [rounds]; exact Sum.inl_ne_inr)
  | succ n ih =>
    intro n' s h h'
    cases n' with
    | zero => exact absurd h' (by rw [rounds]; exact Sum.inl_ne_inr)
    | succ n' =>
      rw [rounds] at h h'
      cases hbody : body s with
      | inl s' =>
        rw [hbody] at h h'
        exact ih h h'
      | inr c =>
        rw [hbody] at h h'
        exact (Sum.inr.inj h).symm.trans (Sum.inr.inj h')

/-- `m` rounds lead from one state to another. -/
def Reaches (body : σ → σ ⊕ β) (m : Nat) (s t : σ) : Prop :=
  ∀ k, rounds body (m + k) s = rounds body k t

section Reaches

variable {body : σ → σ ⊕ β} {m n : Nat} {s t u : σ} {b : β}

theorem Reaches.refl (s : σ) : Reaches body 0 s s := fun k => by rw [Nat.zero_add]

theorem Reaches.step (h : body s = .inl t) : Reaches body 1 s t := fun k => by
  rw [Nat.add_comm, rounds, h]

theorem Reaches.trans (h : Reaches body m s t) (h' : Reaches body n t u) :
    Reaches body (m + n) s u := fun k => by rw [Nat.add_assoc, h, h']

theorem Reaches.ends (h : Reaches body m s t) (ht : rounds body n t = .inr b) :
    rounds body (m + n) s = .inr b := (h n).trans ht

theorem Reaches.of_ends (h : Reaches body m s t) (hs : rounds body n s = .inr b) :
    m ≤ n ∧ rounds body (n - m) t = .inr b := by
  by_cases hle : m ≤ n
  · have hrest := h (n - m)
    rw [Nat.add_sub_cancel' hle] at hrest
    exact ⟨hle, hrest.symm.trans hs⟩
  · have hmore := rounds_add (m - n) hs
    rw [Nat.add_sub_cancel' (Nat.le_of_not_le hle)] at hmore
    have hstart := h 0
    rw [Nat.add_zero, hmore, rounds] at hstart
    exact absurd hstart Sum.inr_ne_inl

end Reaches

/-- **The simulation rule**: two iterations whose rounds are related wherever the
condition is met stay related. -/
theorem rounds_simulates {τ γ : Type u} {body : σ → σ ⊕ β} {body' : τ → τ ⊕ γ}
    {P : σ → Prop} (R : σ → τ → Prop) (Q : β → γ → Prop)
    (step : ∀ s t, R s t → P s → Sum.LiftRel R Q (body s) (body' t)) :
    ∀ (n : Nat) (s : σ) (t : τ), R s t → Along body P n s →
      Sum.LiftRel R Q (rounds body n s) (rounds body' n t) := by
  intro n
  induction n with
  | zero => exact fun _ _ hR _ => .inl hR
  | succ n ih =>
    rintro s t hR ⟨hP, hnext⟩
    have hstep := step s t hR hP
    rw [rounds, rounds]
    generalize body s = x at hstep hnext
    generalize body' t = y at hstep
    cases hstep with
    | inl hR' => exact ih _ _ hR' hnext
    | inr hQ => exact .inr hQ

/-! ## Two ways out -/

/-- If `x` goes on, it does with `Q`, and if it leaves, it does with `E`. -/
def Leaves {ε α : Type u} (x : Except ε α) (E : ε → Prop) (Q : α → Prop) : Prop :=
  match x with
  | .ok a => Q a
  | .error e => E e

theorem Leaves.bind {ε α β : Type u} {x : Except ε α} {f : α → Except ε β} {E : ε → Prop}
    {P : α → Prop} {Q : β → Prop} (hx : Leaves x E P) (hf : ∀ a, P a → Leaves (f a) E Q) :
    Leaves (x >>= f) E Q := by
  cases x with
  | ok a => exact hf a hx
  | error e => exact hx

/-! ## `while` -/

/-- `while (cond) body`. -/
def whileDo (cond : σ → Prop) [DecidablePred cond] (body : σ → σ) :
    Nat → σ → Option σ
  | 0, _ => none
  | fuel + 1, s => if cond s then whileDo cond body fuel (body s) else some s

/-- **The `while` rule**: the invariant survives the body, the variant
decreases, and the loop ends outside its condition. -/
theorem Returns.whileDo {cond : σ → Prop} [DecidablePred cond] {body : σ → σ}
    (I : σ → Prop) (μ : σ → Nat)
    (step : ∀ s, I s → cond s → I (body s) ∧ μ (body s) < μ s) :
    ∀ (fuel : Nat) (s : σ), I s → μ s < fuel →
      Returns (Loop.whileDo cond body fuel s) fun s' => I s' ∧ ¬ cond s' := by
  intro fuel
  induction fuel with
  | zero => exact fun s _ h => absurd h (Nat.not_lt_zero _)
  | succ fuel ih =>
    intro s hI hμ
    rw [Loop.whileDo]
    by_cases hc : cond s
    · rw [if_pos hc]
      obtain ⟨hI', hlt⟩ := step s hI hc
      exact ih (body s) hI' (by omega)
    · rw [if_neg hc]
      exact Returns.pure ⟨hI, hc⟩

theorem whileDo_exits {cond : σ → Prop} [DecidablePred cond] {body : σ → σ} :
    ∀ {fuel : Nat} {s s' : σ}, whileDo cond body fuel s = some s' → ¬ cond s' := by
  intro fuel
  induction fuel with
  | zero =>
    intro s s' h
    cases h
  | succ fuel ih =>
    intro s s' h
    rw [whileDo] at h
    by_cases hc : cond s
    · rw [if_pos hc] at h
      exact ih h
    · rw [if_neg hc] at h
      cases h
      exact hc

theorem whileDo_eq_iterate {cond : σ → Prop} [DecidablePred cond] {body : σ → σ} :
    ∀ (n fuel : Nat) (s : σ), n < fuel → (∀ k < n, cond (body^[k] s)) → ¬ cond (body^[n] s) →
      whileDo cond body fuel s = some (body^[n] s) := by
  intro n
  induction n with
  | zero =>
    intro fuel s hfuel _ hend
    obtain ⟨fuel, rfl⟩ := Nat.exists_eq_add_of_le' hfuel
    exact if_neg hend
  | succ n ih =>
    intro fuel s hfuel hgo hend
    obtain ⟨fuel, rfl⟩ := Nat.exists_eq_add_of_le' (Nat.zero_lt_of_lt hfuel)
    have hfirst : cond s := hgo 0 (Nat.zero_lt_succ n)
    rw [whileDo, if_pos hfirst]
    exact ih fuel (body s) (Nat.lt_of_succ_lt_succ hfuel)
      (fun k hk => hgo (k + 1) (Nat.succ_lt_succ hk)) hend

theorem whileDo_congr {cond cond' : σ → Prop} [DecidablePred cond]
    [DecidablePred cond'] {body : σ → σ} (I : σ → Prop)
    (hcond : ∀ s, I s → (cond s ↔ cond' s))
    (hbody : ∀ s, I s → cond s → I (body s)) :
    ∀ (fuel : Nat) (s : σ), I s →
      whileDo cond body fuel s = whileDo cond' body fuel s := by
  intro fuel
  induction fuel with
  | zero => exact fun _ _ => rfl
  | succ fuel ih =>
    intro s hI
    rw [whileDo, whileDo]
    by_cases hc : cond s
    · rw [if_pos hc, if_pos ((hcond s hI).mp hc)]
      exact ih (body s) (hbody s hI hc)
    · rw [if_neg hc, if_neg (fun h => hc ((hcond s hI).mpr h))]

end Loop
