import Mathlib
import Hplip.Lib.PyText

/-!
# Whole numbers as texts in Python

- `int`: the number that a text stands for, `decimal` (`str(n)`) and `zeroPadded` (`'%0wd' % n`) the
  texts of a number that is not negative;
- `int_digits`, `int_zeroPadded`: digits are read, `zeroPadded_value` digits come from their value;
- `digits_all`: what is read as digits has no other characters.
-/

namespace PyText

/-- `str(n)` of a number that is not negative. -/
def decimal (n : Nat) : List Char := Nat.toDigits 10 n

/-- `'%0wd' % n` -/
def zeroPadded (w n : Nat) : List Char :=
  List.replicate (w - (decimal n).length) '0' ++ decimal n

/-- The digits of a text; later versions let underscores stand between them. -/
def digits (underscores : Bool) (s : List Char) : Option (List Nat) :=
  let groups := if underscores then s.splitOn '_' else [s]
  if ∃ group ∈ groups, group = [] then none else groups.flatten.mapM digit

/-- `int(s)` -/
def int (b : Blanks) (underscores : Bool) (s : List Char) : Option Int :=
  let value ds : Int := (ds.foldl (fun n d => 10 * n + d) 0 : Nat)
  match strip b s with
  | '-' :: s => (digits underscores s).map fun ds => -value ds
  | '+' :: s => (digits underscores s).map value
  | s => (digits underscores s).map value

abbrev value (s : List Char) : Nat := Nat.ofDigitChars 10 s 0

def IsNumber (s : List Char) : Prop := s ≠ [] ∧ ∀ c ∈ s, c.isDigit = true

section Decimals

variable {n v w : Nat} {s t : List Char}

theorem decimal_isNumber (n : Nat) : IsNumber (decimal n) :=
  ⟨Nat.toDigits_ne_nil, fun _ hc => Nat.isDigit_of_mem_toDigits (by decide) (by decide) hc⟩

theorem value_decimal (n : Nat) : value (decimal n) = n := Nat.ofDigitChars_ten_toDigits

theorem decimal_inj : Function.Injective decimal := fun a b h => by
  rw [← value_decimal a, h, value_decimal]

theorem value_zeroPadded : value (zeroPadded w n) = n := by
  rw [value, zeroPadded, Nat.ofDigitChars_append, Nat.ofDigitChars_replicate_zero, Nat.mul_zero]
  exact value_decimal n

theorem length_zeroPadded (h : (decimal n).length ≤ w) : (zeroPadded w n).length = w := by
  rw [zeroPadded, List.length_append, List.length_replicate, Nat.sub_add_cancel h]

theorem zeroPadded_short (h : w ≤ (decimal n).length) : zeroPadded w n = decimal n := by
  rw [zeroPadded, Nat.sub_eq_zero_of_le h]
  rfl

theorem zeroPadded_isNumber : IsNumber (zeroPadded w n) := by
  constructor
  · rw [zeroPadded]
    exact List.append_ne_nil_of_right_ne_nil _ (decimal_isNumber n).1
  · intro c hc
    rcases List.mem_append.mp hc with hc | hc
    · rw [List.eq_of_mem_replicate hc]
      rfl
    · exact (decimal_isNumber n).2 c hc

theorem isDigit_bounds {c : Char} (h : c.isDigit = true) : 48 ≤ c.toNat ∧ c.toNat ≤ 57 := by
  rw [Char.isDigit, Bool.and_eq_true, decide_eq_true_iff, decide_eq_true_iff] at h
  exact ⟨UInt32.le_iff_toNat_le.mp h.1, UInt32.le_iff_toNat_le.mp h.2⟩

theorem value_cons {c : Char} : value (c :: s) = 10 ^ s.length * (c.toNat - 48) + value s := by
  rw [value, Nat.ofDigitChars_cons, Nat.ofDigitChars_eq_ofDigitChars_zero, Nat.mul_zero,
    Nat.zero_add]
  rfl

theorem value_lt (hs : ∀ c ∈ s, c.isDigit = true) : value s < 10 ^ s.length := by
  induction s with
  | nil => exact Nat.one_pos
  | cons c s ih =>
    have hc := isDigit_bounds (hs c List.mem_cons_self)
    have hrest := ih fun c hc => hs c (List.mem_cons_of_mem _ hc)
    have hle : 10 ^ s.length * (c.toNat - 48) ≤ 10 ^ s.length * 9 :=
      Nat.mul_le_mul_left _ (by lia)
    rw [value_cons, List.length_cons, Nat.pow_succ]
    lia

theorem eq_of_value_eq (hs : ∀ c ∈ s, c.isDigit = true) (ht : ∀ c ∈ t, c.isDigit = true)
    (hlen : s.length = t.length) (h : value s = value t) : s = t := by
  induction s generalizing t with
  | nil => exact (List.length_eq_zero_iff.mp hlen.symm).symm
  | cons c s ih =>
    cases t with
    | nil => cases hlen
    | cons d t =>
      have hs' : ∀ c ∈ s, c.isDigit = true := fun c hc => hs c (List.mem_cons_of_mem _ hc)
      have ht' : ∀ c ∈ t, c.isDigit = true := fun c hc => ht c (List.mem_cons_of_mem _ hc)
      have hlen' : s.length = t.length := Nat.succ_injective hlen
      rw [value_cons, value_cons, hlen'] at h
      have hslt := value_lt hs'
      have htlt := value_lt ht'
      rw [hlen'] at hslt
      have hparts := (Nat.div_mod_unique (Nat.pos_of_ne_zero (by lia : 10 ^ t.length ≠ 0))).mpr
        ⟨(Nat.add_comm (value s) _).trans h, hslt⟩
      have hparts' := (Nat.div_mod_unique (a := 10 ^ t.length * (d.toNat - 48) + value t)
        (d := d.toNat - 48) (Nat.pos_of_ne_zero (by lia : 10 ^ t.length ≠ 0))).mpr
        ⟨Nat.add_comm (value t) _, htlt⟩
      have hc := isDigit_bounds (hs c List.mem_cons_self)
      have hd := isDigit_bounds (ht d List.mem_cons_self)
      have hhead : c = d := Char.toNat_inj.mp (by lia)
      rw [hhead, ih hs' ht' hlen' (hparts.2.symm.trans hparts'.2)]

theorem length_decimal_le (hs : IsNumber s) (h : v ≤ value s) : (decimal v).length ≤ s.length :=
  (Nat.length_toDigits_le_iff (by decide) (List.length_pos_of_ne_nil hs.1)).mpr
    (Nat.lt_of_le_of_lt h (value_lt hs.2))

/-- **Digits** are their value, filled up with zeros to their number. -/
theorem zeroPadded_value (hs : IsNumber s) : zeroPadded s.length (value s) = s :=
  eq_of_value_eq zeroPadded_isNumber.2 hs.2
    (length_zeroPadded (length_decimal_le hs (Nat.le_refl _))) value_zeroPadded

theorem decimal_head (n : Nat) : decimal n = ['0'] ∨ (decimal n).head? ≠ some '0' := by
  induction n using Nat.strong_induction_on with
  | _ n ih =>
    by_cases hn : n < 10
    · rw [decimal, Nat.toDigits_of_lt_base hn]
      by_cases hzero : n = 0
      · left
        rw [hzero]
        rfl
      · right
        intro hhead
        have hval := Nat.toNat_digitChar_sub_48_of_lt_ten hn
        rw [Option.some.inj hhead] at hval
        exact hzero hval.symm
    · right
      have hsplit : decimal n = decimal (n / 10) ++ [Nat.digitChar (n % 10)] :=
        Nat.toDigits_of_base_le (by decide) (Nat.not_lt.mp hn)
      rw [hsplit, List.head?_append_of_ne_nil _ (decimal_isNumber _).1]
      rcases ih (n / 10) (by lia) with hzero | hhead
      · have hvalue := value_decimal (n / 10)
        rw [hzero] at hvalue
        have hten : 0 < n / 10 := Nat.div_pos (Nat.not_lt.mp hn) (by decide)
        exact absurd hvalue (by simp [value, Nat.ofDigitChars]; lia)
      · exact hhead

end Decimals

/-! ## Reading -/

def Blanks.Plain (b : Blanks) : Prop :=
  ∀ c, b.is c = true → c ≠ ',' ∧ c ≠ '-' ∧ c ≠ '+' ∧ c ≠ '_' ∧ digit c = none

section Reading

variable {b : Blanks} {u : Bool} {s t : List Char} {ds : List Nat} {v : Int}

theorem digit_of_isDigit {c : Char} (h : c.isDigit = true) : digit c = some (c.toNat - 48) := by
  have hbounds := isDigit_bounds h
  have hfirst : (decide (0x30 ≤ c.toNat) && decide (c.toNat < 0x30 + 10)) = true := by
    rw [Bool.and_eq_true, decide_eq_true_iff, decide_eq_true_iff]
    exact ⟨hbounds.1, by lia⟩
  have hzeros : zeros = 0x30 :: zeros.tail := rfl
  rw [digit, hzeros, List.find?_cons, hfirst]
  rfl

theorem strip_eq_self (h : ∀ c ∈ s, b.is c = false) : strip b s = s := by
  have hdrop : s.dropWhile b.is = s := by
    rw [List.dropWhile_eq_self_iff]
    intro hs hfirst
    rw [h _ (List.getElem_mem hs)] at hfirst
    cases hfirst
  rw [strip, hdrop, List.rdropWhile_eq_self_iff]
  intro hs hlast
  rw [h _ (List.getLast_mem hs)] at hlast
  cases hlast

theorem strip_append_left (h : ∀ c ∈ s, b.is c = true) : strip b (s ++ t) = strip b t := by
  rw [strip, List.dropWhile_append_of_pos h, strip]

theorem strip_append_right (h : ∀ c ∈ t, b.is c = true) : strip b (s ++ t) = strip b s := by
  have hdrop : ∀ l : List Char, (l ++ t).rdropWhile b.is = l.rdropWhile b.is := by
    intro l
    rw [List.rdropWhile, List.reverse_append,
      List.dropWhile_append_of_pos fun c hc => h c (List.mem_reverse.mp hc), List.rdropWhile]
  by_cases hs : ∀ c ∈ s, b.is c = true
  · have hnil : s.dropWhile b.is = [] := List.dropWhile_eq_nil_iff.mpr hs
    have hblank : t.rdropWhile b.is = [] := List.rdropWhile_eq_nil_iff.mpr h
    have hdropt : (t.dropWhile b.is).rdropWhile b.is = [] := by
      rw [List.dropWhile_eq_nil_iff.mpr h]
      rfl
    rw [strip, List.dropWhile_append_of_pos hs, hdropt, strip, hnil]
    rfl
  · have hne : s.dropWhile b.is ≠ [] := fun hnil => hs (List.dropWhile_eq_nil_iff.mp hnil)
    rw [strip, List.dropWhile_append, if_neg (by simpa using hne), hdrop, strip]

theorem strip_eq_nil : strip b s = [] ↔ ∀ c ∈ s, b.is c = true := by
  constructor
  · intro h
    rw [strip, List.rdropWhile_eq_nil_iff] at h
    by_contra hs
    have hne : s.dropWhile b.is ≠ [] := fun hnil => hs (List.dropWhile_eq_nil_iff.mp hnil)
    have hfirst := h _ (List.head_mem hne)
    rw [List.head_dropWhile_not b.is hne] at hfirst
    cases hfirst
  · intro h
    rw [strip, List.dropWhile_eq_nil_iff.mpr h]
    rfl

theorem strip_eq_self_of_ends (hfirst : ∀ c, s.head? = some c → b.is c = false)
    (hlast : ∀ c, s.getLast? = some c → b.is c = false) : strip b s = s := by
  have hdrop : s.dropWhile b.is = s := by
    cases s with
    | nil => rfl
    | cons c s => rw [List.dropWhile_cons_of_neg (by rw [hfirst c rfl]; exact Bool.false_ne_true)]
  rw [strip, hdrop, List.rdropWhile_eq_self_iff]
  intro hs
  rw [hlast _ (List.getLast?_eq_getLast_of_ne_nil hs)]
  exact Bool.false_ne_true

theorem strip_first {c : Char} (h : (strip b s).head? = some c) : b.is c = false := by
  obtain ⟨rest, hrest⟩ := List.rdropWhile_prefix b.is (s.dropWhile b.is)
  have hhead : (s.dropWhile b.is).head? = some c := by
    rw [← hrest, List.head?_append, show (List.rdropWhile b.is (s.dropWhile b.is)).head? = some c
      from h]
    rfl
  have hnot := List.head?_dropWhile_not b.is s
  rw [hhead] at hnot
  exact hnot

theorem strip_last {c : Char} (h : (strip b s).getLast? = some c) : b.is c = false := by
  have hne : strip b s ≠ [] := by
    intro hnil
    rw [hnil] at h
    cases h
  have hnot := List.rdropWhile_last_not b.is (s.dropWhile b.is) hne
  rw [List.getLast?_eq_getLast_of_ne_nil hne] at h
  rw [← Option.some.inj h]
  exact Bool.eq_false_iff.mpr hnot

theorem strip_strip (b : Blanks) (s : List Char) : strip b (strip b s) = strip b s :=
  strip_eq_self_of_ends (fun _ => strip_first) fun _ => strip_last

theorem mem_of_mem_strip {c : Char} (h : c ∈ strip b s) : c ∈ s :=
  (List.dropWhile_suffix b.is).subset ((List.rdropWhile_prefix b.is _).subset h)

theorem Blanks.Plain.not_digit (hb : b.Plain) {c : Char} (h : c.isDigit = true) :
    b.is c = false := by
  cases hblank : b.is c with
  | false => rfl
  | true =>
    have hnone := (hb c hblank).2.2.2.2
    rw [digit_of_isDigit h] at hnone
    cases hnone

theorem digits_number (hs : IsNumber s) : digits u s = some (s.map fun c => c.toNat - 48) := by
  have hgroups : (if u = true then s.splitOn '_' else [s]) = [s] := by
    split
    · exact List.splitOn_eq_singleton fun hmem => absurd (hs.2 _ hmem) (by decide)
    · rfl
  have hread : ∀ t : List Char, (∀ c ∈ t, c.isDigit = true) →
      t.mapM digit = some (t.map fun c => c.toNat - 48) := by
    intro t ht
    induction t with
    | nil => rfl
    | cons c t ih =>
      rw [List.mapM_cons, digit_of_isDigit (ht c List.mem_cons_self),
        ih fun c hc => ht c (List.mem_cons_of_mem _ hc)]
      rfl
  have hsome : ¬ ∃ group ∈ [s], group = [] := by
    rintro ⟨group, hmem, rfl⟩
    exact hs.1 (List.mem_singleton.mp hmem).symm
  rw [digits, hgroups, if_neg hsome, List.flatten_singleton, hread s hs.2]

/-- **Digits** are read as the number that they are the text of. -/
theorem int_number (hb : b.Plain) (hs : IsNumber s) : int b u s = some (value s : Int) := by
  have hfold : (s.map fun c => c.toNat - 48).foldl (fun n d => 10 * n + d) 0 = value s := by
    rw [List.foldl_map]
    rfl
  have hsign : ∀ c, c.isDigit = false → s.head? ≠ some c := by
    intro c hc hhead
    rw [hs.2 c (List.mem_of_mem_head? hhead)] at hc
    cases hc
  rw [int, strip_eq_self fun c hc => hb.not_digit (hs.2 c hc)]
  split
  · exact absurd rfl (hsign '-' rfl)
  · exact absurd rfl (hsign '+' rfl)
  · rw [digits_number hs, Option.map_some, hfold]

theorem int_strip (b : Blanks) (u : Bool) (s : List Char) : int b u (strip b s) = int b u s := by
  rw [int, strip_strip, int]

theorem mem_splitOn {a c : Char} (hc : c ∈ s) (hne : c ≠ a) : ∃ w ∈ s.splitOn a, c ∈ w := by
  induction s with
  | nil => exact absurd hc List.not_mem_nil
  | cons x s ih =>
    obtain ⟨v, vs, hsplit⟩ := List.exists_cons_of_ne_nil (List.splitOn_ne_nil a s)
    rw [hsplit] at ih
    rw [List.splitOn_cons_eq_if_modifyHead, hsplit]
    rcases List.mem_cons.mp hc with rfl | hc
    · rw [if_neg fun heq => hne (beq_iff_eq.mp heq)]
      exact ⟨c :: v, List.mem_cons_self, List.mem_cons_self⟩
    · obtain ⟨w, hw, hcw⟩ := ih hc
      split
      · exact ⟨w, List.mem_cons_of_mem _ hw, hcw⟩
      · rcases List.mem_cons.mp hw with rfl | hw
        · exact ⟨x :: w, List.mem_cons_self, List.mem_cons_of_mem _ hcw⟩
        · exact ⟨w, List.mem_cons_of_mem _ hw, hcw⟩

theorem mem_of_mem_splitOn {a c : Char} {w : List Char} (hw : w ∈ s.splitOn a) (hc : c ∈ w) :
    c ∈ s := by
  induction s generalizing w with
  | nil =>
    rw [List.splitOn_nil, List.mem_singleton] at hw
    exact hw ▸ hc
  | cons x s ih =>
    obtain ⟨v, vs, hsplit⟩ := List.exists_cons_of_ne_nil (List.splitOn_ne_nil a s)
    rw [hsplit] at ih
    rw [List.splitOn_cons_eq_if_modifyHead, hsplit] at hw
    split at hw
    · rcases List.mem_cons.mp hw with rfl | hw
      · exact absurd hc List.not_mem_nil
      · exact List.mem_cons_of_mem _ (ih hw hc)
    · rcases List.mem_cons.mp hw with rfl | hw
      · rcases List.mem_cons.mp hc with rfl | hc
        · exact List.mem_cons_self
        · exact List.mem_cons_of_mem _ (ih List.mem_cons_self hc)
      · exact List.mem_cons_of_mem _ (ih (List.mem_cons_of_mem _ hw) hc)

theorem digits_all (h : digits u s = some ds) :
    s ≠ [] ∧ ∀ c ∈ s, c ≠ '_' → (digit c).isSome := by
  have hall : ∀ (t : List Char) ds, t.mapM digit = some ds → ∀ c ∈ t, (digit c).isSome := by
    intro t
    induction t with
    | nil => exact fun _ _ _ hc => absurd hc List.not_mem_nil
    | cons x t ih =>
      intro ds ht
      rw [List.mapM_cons] at ht
      obtain ⟨d, hd, hrest⟩ := Option.bind_eq_some_iff.mp ht
      obtain ⟨ds', hds', -⟩ := Option.bind_eq_some_iff.mp hrest
      exact List.forall_mem_cons.mpr ⟨hd ▸ rfl, ih ds' hds'⟩
  -- the groups: those between underscores, or the text as it is
  have hgroups : ∀ groups : List (List Char), ([] ∈ groups → False) →
      (∀ c ∈ s, c ≠ '_' → ∃ w ∈ groups, c ∈ w) → (s = [] → [] ∈ groups) →
      groups.flatten.mapM digit = some ds → s ≠ [] ∧ ∀ c ∈ s, c ≠ '_' → (digit c).isSome := by
    intro groups hempty hchars hnil hread
    exact ⟨fun hs => hempty (hnil hs),
      fun c hc hne => hall _ ds hread c (List.mem_flatten.mpr (hchars c hc hne))⟩
  cases u with
  | true =>
    simp only [digits, if_true] at h
    split at h
    · cases h
    · rename_i hsome
      refine hgroups (s.splitOn '_') (fun hmem => hsome ⟨[], hmem, rfl⟩)
        (fun c hc hne => mem_splitOn hc hne) ?_ h
      rintro rfl
      exact List.mem_singleton_self _
  | false =>
    simp only [digits, Bool.false_eq_true, if_false] at h
    split at h
    · cases h
    · rename_i hsome
      refine hgroups [s] (fun hmem => hsome ⟨[], hmem, rfl⟩)
        (fun c hc _ => ⟨s, List.mem_singleton_self s, hc⟩) ?_ h
      rintro rfl
      exact List.mem_singleton_self _

theorem number_of_int (hb : b.Plain)
    (hs : ∀ c ∈ s, c.isDigit = true ∨ c = '-' ∨ b.is c = true) (h : int b u s = some v) :
    IsNumber (strip b s) ∨ ∃ t, strip b s = '-' :: t ∧ IsNumber t := by
  have hnumber : ∀ t ds, digits u t = some ds → (∀ c ∈ t, c ∈ s) → IsNumber t := by
    intro t ds ht hsub
    obtain ⟨hne, hall⟩ := digits_all ht
    refine ⟨hne, fun c hc => ?_⟩
    rcases hs c (hsub c hc) with hdigit | rfl | hblank
    · exact hdigit
    · exact absurd (hall '-' hc (by decide)) (by decide)
    · have hplain := hb c hblank
      have hsome := hall c hc hplain.2.2.2.1
      rw [hplain.2.2.2.2] at hsome
      cases hsome
  have hmem : ∀ c ∈ strip b s, c ∈ s := fun c hc => mem_of_mem_strip hc
  rw [int] at h
  split at h
  · rename_i t hstrip
    rw [hstrip] at hmem ⊢
    obtain ⟨ds, hds, -⟩ := Option.map_eq_some_iff.mp h
    exact .inr ⟨t, rfl, hnumber t ds hds fun c hc => hmem c (List.mem_cons_of_mem _ hc)⟩
  · rename_i t hstrip
    rw [hstrip] at hmem
    rcases hs '+' (hmem '+' List.mem_cons_self) with hdigit | hdash | hblank
    · exact absurd hdigit (by decide)
    · exact absurd hdash (by decide)
    · exact absurd rfl (hb '+' hblank).2.2.1
  · obtain ⟨ds, hds, -⟩ := Option.map_eq_some_iff.mp h
    exact .inl (hnumber _ ds hds hmem)

end Reading

end PyText
