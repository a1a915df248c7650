import Hplip.Lib.RowCoding

/-!
# Changing elements

The positions of a two-dimensional coding as they are defined, each of them searched for in
the whole row: a changing element differs from the pixel before it, and before the row there is
an imaginary white one.
-/

namespace ChangingElement

open RowCoding (Mode)

variable {p row ref : Nat → Bool} {P : Nat → Bool} {n lo i j : Nat} {start c : Bool} {a0 a b : Nat}

def before (p : Nat → Bool) : Nat → Bool
  | 0 => false
  | i + 1 => p i

def changing (p : Nat → Bool) (i : Nat) : Bool := p i != before p i

/-- The first position from `lo` on with the property, at most `n`. -/
def firstFrom (n lo : Nat) (P : Nat → Bool) : Nat :=
  ((List.range n).find? fun i => decide (lo ≤ i) && P i).getD n

/-- Where the positions to the right of `a0` begin: at the start `a0` is before the row. -/
def rightOf (start : Bool) (a0 : Nat) : Nat := if start then 0 else a0 + 1

/-- The colour of `a0`. -/
def colour (row : Nat → Bool) (start : Bool) (a0 : Nat) : Bool := if start then false else row a0

/-- The next changing element to the right of `a0` on the coding line. -/
def a1 (row : Nat → Bool) (n : Nat) (start : Bool) (a0 : Nat) : Nat :=
  firstFrom n (rightOf start a0) (changing row)

/-- The next changing element to the right of `a1` on the coding line. -/
def a2 (row : Nat → Bool) (n a1 : Nat) : Nat := firstFrom n (a1 + 1) (changing row)

/-- The first changing element on the reference line to the right of `a0` and of opposite colour
to `a0`. -/
def b1 (ref : Nat → Bool) (n : Nat) (start c : Bool) (a0 : Nat) : Nat :=
  firstFrom n (rightOf start a0) fun i => changing ref i && (ref i != c)

/-- The next changing element to the right of `b1` on the reference line. -/
def b2 (ref : Nat → Bool) (n b1 : Nat) : Nat := firstFrom n (b1 + 1) (changing ref)

/-- The mode at `a0`, and where `a0` is after it. -/
def modeAt (row ref : Nat → Bool) (n : Nat) (start : Bool) (a0 : Nat) : Mode × Nat :=
  let a1 := a1 row n start a0
  let b1 := b1 ref n start (colour row start a0) a0
  let b2 := b2 ref n b1
  if b2 < a1 then (.pass, b2)
  else if -3 ≤ (a1 : Int) - b1 ∧ (a1 : Int) - b1 ≤ 3 then (.vertical ((a1 : Int) - b1), a1)
  else (.horizontal (a1 - a0) (a2 row n a1 - a1), a2 row n a1)

/-- The modes of a row from `a0` on, each with the colour of its `a0`. -/
inductive Codes (row ref : Nat → Bool) (n : Nat) : Bool → Nat → List (Bool × Mode) → Prop
  | done {a0 : Nat} (h : n ≤ a0) : Codes row ref n false a0 []
  | step {start : Bool} {a0 : Nat} {ms : List (Bool × Mode)} (h : start = true ∨ a0 < n)
      (hms : Codes row ref n false (modeAt row ref n start a0).2 ms) :
      Codes row ref n start a0 ((colour row start a0, (modeAt row ref n start a0).1) :: ms)

/-! ## The first position -/

theorem firstFrom_eq (hjn : j ≤ n) (hbefore : ∀ i, lo ≤ i → i < j → P i = false)
    (hat : j < n → lo ≤ j ∧ P j = true) : firstFrom n lo P = j := by
  rw [firstFrom]
  rcases Nat.eq_or_lt_of_le hjn with rfl | hlt
  · have hnone : ((List.range j).find? fun i => decide (lo ≤ i) && P i) = none := by
      rw [List.find?_eq_none]
      intro i hi hboth
      obtain ⟨hlo, hP⟩ := Bool.and_eq_true_iff.mp hboth
      have hfalse := hbefore i (of_decide_eq_true hlo) (List.mem_range.mp hi)
      rw [hfalse] at hP
      exact Bool.false_ne_true hP
    rw [hnone]
    rfl
  · obtain ⟨hlo, hP⟩ := hat hlt
    have hsome : ((List.range n).find? fun i => decide (lo ≤ i) && P i) = some j := by
      rw [List.find?_range_eq_some]
      refine ⟨by rw [decide_eq_true hlo, hP]; rfl, List.mem_range.mpr hlt, fun i hi => ?_⟩
      by_cases hle : lo ≤ i
      · rw [hbefore i hle hi, Bool.and_false]
        rfl
      · rw [decide_eq_false hle]
        rfl
    rw [hsome]
    rfl

theorem firstFrom_congr {Q : Nat → Bool} (h : ∀ i < n, P i = Q i) :
    firstFrom n lo P = firstFrom n lo Q := by
  have hfind : ∀ l : List Nat, (∀ i ∈ l, i < n) →
      (l.find? fun i => decide (lo ≤ i) && P i) = l.find? fun i => decide (lo ≤ i) && Q i := by
    intro l hl
    induction l with
    | nil => rfl
    | cons i l ih =>
      rw [List.find?_cons, List.find?_cons, h i (hl i List.mem_cons_self),
        ih fun k hk => hl k (List.mem_cons_of_mem i hk)]
  rw [firstFrom, hfind _ fun i hi => List.mem_range.mp hi, firstFrom]

/-! ## Scans -/

theorem before_of_pos (h : 0 < i) : before p i = p (i - 1) := by
  obtain ⟨k, rfl⟩ := Nat.exists_eq_succ_of_ne_zero (Nat.ne_of_gt h)
  rfl

theorem changing_of_eq (h : p i = before p i) : changing p i = false := by
  rw [changing, h, bne_self_eq_false]

theorem changing_of_not (h : p i = !before p i) : changing p i = true := by
  rw [changing, h]
  cases before p i <;> rfl

/-- The coded side of the position has the colour, at the start the imaginary pixel's. -/
structure Stands (row : Nat → Bool) (n : Nat) (start c : Bool) (a0 : Nat) : Prop where
  atStart : start = true → a0 = 0 ∧ c = false
  behind : start = false → a0 < n → row a0 = c
  le : a0 ≤ n

theorem Stands.colour (h : Stands row n start c a0) (hlt : start = true ∨ a0 < n) :
    colour row start a0 = c := by
  cases start with
  | true => exact (h.atStart rfl).2.symm
  | false => exact h.behind rfl (hlt.resolve_left Bool.false_ne_true)

theorem Stands.before_eq (h : Stands row n start c a0) (hlo : rightOf start a0 ≤ i)
    (hi : i ≤ Scan.next row c n a0) (hn : i < n) : before row i = c := by
  cases start with
  | true =>
    obtain ⟨rfl, rfl⟩ := h.atStart rfl
    rcases i with _ | i
    · rfl
    · show row i = false
      exact Scan.eq_of_lt_next (Nat.zero_le i) hi
  | false =>
    have hlo : a0 + 1 ≤ i := hlo
    rw [before_of_pos (by lia)]
    exact Scan.eq_of_lt_next (by lia) (by lia : i - 1 < Scan.next row c n a0)

theorem Stands.le_of_right (h : Stands row n start c a0) (hlo : rightOf start a0 ≤ i) : a0 ≤ i := by
  cases start with
  | true =>
    rw [(h.atStart rfl).1]
    exact Nat.zero_le i
  | false => exact Nat.le_of_succ_le hlo

theorem a1_eq (h : Stands row n start c a0) : RowCoding.a1 row n c a0 = a1 row n start a0 := by
  refine (firstFrom_eq Scan.next_le (fun i hlo hi => ?_) fun hlt => ?_).symm
  · have hn : i < n := Nat.lt_of_lt_of_le hi Scan.next_le
    apply changing_of_eq
    rw [h.before_eq hlo (Nat.le_of_lt hi) hn]
    exact Scan.eq_of_lt_next (h.le_of_right hlo) hi
  · have hlo : rightOf start a0 ≤ Scan.next row c n a0 := by
      cases start with
      | true => exact Nat.zero_le _
      | false =>
        have ha0 : a0 < n := Nat.lt_of_le_of_lt (Scan.le_next h.le) hlt
        exact Scan.lt_next ha0 (h.behind rfl ha0)
    refine ⟨hlo, changing_of_not ?_⟩
    rw [h.before_eq hlo (Nat.le_refl _) hlt]
    exact Scan.next_eq_not hlt

theorem following_eq (h : b < n → p b = !c) :
    Scan.next p (!c) n (b + 1) = firstFrom n (b + 1) (changing p) := by
  have hbefore : ∀ i, b + 1 ≤ i → i ≤ Scan.next p (!c) n (b + 1) → i < n → before p i = !c := by
    intro i hlo hi hn
    rw [before_of_pos (by lia)]
    rcases Nat.eq_or_lt_of_le hlo with rfl | hgt
    · exact h (by lia)
    · exact Scan.eq_of_lt_next (by lia) (by lia : i - 1 < Scan.next p (!c) n (b + 1))
  refine (firstFrom_eq Scan.next_le (fun i hlo hi => ?_) fun hlt => ?_).symm
  · have hn : i < n := Nat.lt_of_lt_of_le hi Scan.next_le
    apply changing_of_eq
    rw [hbefore i hlo (Nat.le_of_lt hi) hn]
    exact Scan.eq_of_lt_next hlo hi
  · have hlo : b + 1 ≤ Scan.next p (!c) n (b + 1) := by
      rcases Nat.lt_or_ge n (b + 1) with hgt | hle
      · rw [Scan.next_of_ge (Nat.le_of_lt hgt)] at hlt
        exact absurd hlt (Nat.lt_irrefl n)
      · exact Scan.le_next hle
    refine ⟨hlo, changing_of_not ?_⟩
    rw [hbefore _ hlo (Nat.le_refl _) hlt]
    exact Scan.next_eq_not hlt

theorem a2_eq (h : a < n → row a = !c) : RowCoding.a2 row n c a = a2 row n a := following_eq h

theorem b2_eq (h : b < n → ref b = !c) : Scan.b2 ref n c b = b2 ref n b := following_eq h

theorem b1_eq (hstart : start = true → a0 = 0 ∧ c = false) (hle : a0 ≤ n) :
    Scan.b1 ref n start c a0 = b1 ref n start c a0 := by
  have hcolour : ∀ {i}, ref i = c → (changing ref i && (ref i != c)) = false := fun {i} hi => by
    rw [hi, bne_self_eq_false, Bool.and_false]
  have hfound : ∀ {i}, ref i = (!c) → before ref i = c →
      (changing ref i && (ref i != c)) = true := fun {i} hi hb => by
    rw [changing, hi, hb]
    cases c <;> rfl
  cases start with
  | true =>
    obtain ⟨rfl, rfl⟩ := hstart rfl
    refine (firstFrom_eq Scan.next_le (fun i hlo hi => ?_) fun hlt => ?_).symm
    · exact hcolour (Scan.eq_of_lt_next hlo hi)
    · refine ⟨Nat.zero_le _, hfound (Scan.next_eq_not hlt) ?_⟩
      show before ref (Scan.next ref false n 0) = false
      rcases Nat.eq_zero_or_pos (Scan.next ref false n 0) with hzero | hpos
      · rw [hzero]
        rfl
      · rw [before_of_pos hpos]
        exact Scan.eq_of_lt_next (Nat.zero_le _) (Nat.sub_one_lt (Nat.ne_of_gt hpos))
  | false =>
    -- the first scan goes over the other colour, up to `m`
    obtain ⟨m, hm⟩ : ∃ m, m = Scan.next ref (!c) n a0 := ⟨_, rfl⟩
    have ham : a0 ≤ m := hm ▸ Scan.le_next hle
    have hmn : m ≤ n := hm ▸ Scan.next_le
    have hatm : m < n → ref m = c := fun hlt => by
      rw [hm] at hlt ⊢
      rw [Scan.next_eq_not hlt, Bool.not_not]
    have hb1 : Scan.b1 ref n false c a0 = Scan.next ref c n (m + 1) := by rw [Scan.b1, hm]
    rw [hb1]
    refine (firstFrom_eq Scan.next_le (fun i hlo hi => ?_) fun hlt => ?_).symm
    · have hlo : a0 + 1 ≤ i := hlo
      rcases Nat.lt_trichotomy i m with hless | rfl | hgt
      · have hsame : changing ref i = false := by
          apply changing_of_eq
          rw [before_of_pos (by lia)]
          rw [hm] at hless
          rw [Scan.eq_of_lt_next (by lia) hless,
            Scan.eq_of_lt_next (by lia) (by lia : i - 1 < Scan.next ref (!c) n a0)]
        rw [hsame, Bool.false_and]
      · exact hcolour (hatm (Nat.lt_of_lt_of_le hi Scan.next_le))
      · exact hcolour (Scan.eq_of_lt_next hgt hi)
    · have hmlt : m < n := by
        rcases Nat.lt_or_ge m n with hlt' | hge
        · exact hlt'
        · rw [Scan.next_of_ge (by lia)] at hlt
          exact absurd hlt (Nat.lt_irrefl n)
      have hlo : m + 1 ≤ Scan.next ref c n (m + 1) := Scan.le_next hmlt
      refine ⟨Nat.le_trans (Nat.succ_le_succ ham) hlo, hfound (Scan.next_eq_not hlt) ?_⟩
      rw [before_of_pos (by lia)]
      rcases Nat.eq_or_lt_of_le hlo with heq | hgt
      · rw [← heq, Nat.add_sub_cancel]
        exact hatm hmlt
      · exact Scan.eq_of_lt_next (by lia)
          (by lia : Scan.next ref c n (m + 1) - 1 < Scan.next ref c n (m + 1))

/-! ## Modes -/

theorem modeAt_eq (ref : Nat → Bool) (h : Stands row n start c a0)
    (hlt : start = true ∨ a0 < n) :
    modeAt row ref n start a0
      = ((RowCoding.modeAt row ref n start c a0).1, (RowCoding.modeAt row ref n start c a0).2.1) := by
  have hb1 : Scan.b1 ref n start c a0 = b1 ref n start c a0 := b1_eq h.atStart h.le
  have hb2 : Scan.b2 ref n c (b1 ref n start c a0) = b2 ref n (b1 ref n start c a0) :=
    b2_eq fun hn => by rw [← hb1] at hn ⊢; exact Scan.b1_eq_not hn
  have ha2 : RowCoding.a2 row n c (a1 row n start a0) = a2 row n (a1 row n start a0) :=
    a2_eq fun hn => by rw [← a1_eq h] at hn ⊢; exact Scan.next_eq_not hn
  simp only [modeAt, RowCoding.modeAt, h.colour hlt, a1_eq h, hb1, hb2, ha2]
  split
  · rfl
  · split
    · rfl
    · rfl

theorem stands_of_coloured (h : RowCoding.Coloured row n false c a0) : Stands row n false c a0 :=
  ⟨fun hstart => absurd hstart Bool.false_ne_true, h.2, h.1⟩

theorem Stands.coloured (h : Stands row n start c a0) : RowCoding.Coloured row n start c a0 :=
  ⟨h.le, h.behind⟩

theorem Codes.of_modes {ms : List (Bool × Mode)} (hms : RowCoding.Modes row ref n start c a0 ms)
    (h : Stands row n start c a0) : Codes row ref n start a0 ms := by
  induction hms with
  | done hge => exact .done hge
  | step hlt _ ih =>
    have hmode := modeAt_eq ref h hlt
    have hrest := ih (stands_of_coloured (RowCoding.modeAt_coloured ref h.coloured))
    have hfirst := congrArg Prod.fst hmode
    have hsecond := congrArg Prod.snd hmode
    dsimp only at hfirst hsecond
    rw [← hsecond] at hrest
    have hcodes := Codes.step hlt hrest
    rwa [h.colour hlt, hfirst] at hcodes

/-! ## Rows that agree up to their width -/

section Congr

variable {row' ref' : Nat → Bool} (hrow : ∀ i < n, row i = row' i) (href : ∀ i < n, ref i = ref' i)

theorem changing_congr {q : Nat → Bool} (h : ∀ i < n, p i = q i) (hi : i < n) :
    changing p i = changing q i := by
  rcases i with _ | i
  · rw [changing, changing, h 0 hi]
    rfl
  · rw [changing, changing, h (i + 1) hi, before, h i (by omega), before]

include hrow in
theorem a1_congr : a1 row n start a0 = a1 row' n start a0 :=
  firstFrom_congr fun _ hi => changing_congr hrow hi

include hrow in
theorem a2_congr : a2 row n a = a2 row' n a :=
  firstFrom_congr fun _ hi => changing_congr hrow hi

include href in
theorem b1_congr : b1 ref n start c a0 = b1 ref' n start c a0 :=
  firstFrom_congr fun i hi => by rw [changing_congr href hi, href i hi]

include href in
theorem b2_congr : b2 ref n b = b2 ref' n b :=
  firstFrom_congr fun _ hi => changing_congr href hi

include hrow in
theorem colour_congr (hlt : start = true ∨ a0 < n) : colour row start a0 = colour row' start a0 := by
  cases start with
  | true => rfl
  | false => exact hrow a0 (hlt.resolve_left Bool.false_ne_true)

include hrow href in
theorem modeAt_congr (hlt : start = true ∨ a0 < n) :
    modeAt row ref n start a0 = modeAt row' ref' n start a0 := by
  have hb1 : ∀ c, b1 ref n start c a0 = b1 ref' n start c a0 := fun _ => b1_congr href
  have hb2 : ∀ b, b2 ref n b = b2 ref' n b := fun _ => b2_congr href
  have ha2 : ∀ a, a2 row n a = a2 row' n a := fun _ => a2_congr hrow
  simp only [modeAt, a1_congr hrow, hb1, hb2, ha2, colour_congr hrow hlt]

include hrow href in
theorem Codes.congr {ms : List (Bool × Mode)} (h : Codes row ref n start a0 ms) :
    Codes row' ref' n start a0 ms := by
  induction h with
  | done hge => exact .done hge
  | step hlt _ ih =>
    rw [modeAt_congr hrow href hlt] at ih ⊢
    rw [colour_congr hrow hlt]
    exact .step hlt ih

end Congr

end ChangingElement
