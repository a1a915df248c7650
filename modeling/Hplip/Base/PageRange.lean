import Mathlib
import Hplip.Lib.PyInt

/-!
# Page ranges (base/utils.py)

`collapse_range` prints a list of pages with its runs as ranges, `expand_range` reads such a text:
it makes the name of every page, drops names that come twice, and takes the numbers of those that
are left.

- `collapseLoop_names`: the printed text names just the pages of the list, in their decimal digits;
- `Names`: what a part of a text names, and with how many digits, `mem_names` that these are the
  names which are made of it;
- `pageRanges`: a strictly increasing list comes back, and a text of numbers has a canonical form
  unless it names one page with different numbers of digits.
-/

namespace Hplip.PageRange

open PyText

/-! ## The code -/

structure Python where
  blanks : Blanks
  underscores : Bool
  plain : blanks.Plain

/-- The exceptions, each with the part of the text or the name it is about. -/
inductive Raised where
  /-- `'empty range: ' + n` -/
  | emptyRange (n : List Char)
  /-- `'wide range: ' + n` -/
  | wideRange (n : List Char)
  /-- `'bad range: ' + n` -/
  | badRange (n : List Char)
  /-- A per cent sign in the header: the format or the number that is made of it. -/
  | format (n : List Char)
  /-- `int` raises. -/
  | notAnInt (name : List Char)
  deriving DecidableEq

def toInt (p : Python) (name : List Char) : Except Raised Int :=
  match int p.blanks p.underscores name with
  | some v => .ok v
  | none => .error (.notAnInt name)

/-- `r[0] != '0' and r[0][0] == '0'` -/
def LeadingZero (r0 : List Char) : Prop := r0 ≠ ['0'] ∧ r0.head? = some '0'

instance (r0 : List Char) : Decidable (LeadingZero r0) := inferInstanceAs (Decidable (_ ∧ _))

/-- `range(lo, hi+1)`; neither is negative, since a minus sign splits a part. -/
def numbers (lo hi : Int) : List Nat := List.range' lo.toNat (hi.toNat + 1 - lo.toNat)

def expandPart (p : Python) (n : List Char) : Except Raised (List (List Char)) :=
  let n := strip p.blanks n
  match n.splitOn '-' with
  | [r0, r1] =>
    let h := r0.rdropWhile Char.isDigit
    let r0 := r0.drop h.length
    if r0 = [] ∨ r1 = [] then .error (.emptyRange n)
    else if LeadingZero r0 ∧ r0.length < r1.length then .error (.wideRange n)
    else do
      let lo ← toInt p r0
      let hi ← toInt p r1
      if hi < lo then .error (.badRange n)
      else if '%' ∈ h then .error (.format n)
      else
        let w := if LeadingZero r0 then max r0.length r1.length else 0
        .ok ((numbers lo hi).map fun i => h ++ zeroPadded w i)
  | _ => .ok [n]

/-- `expand_range(ns)`; the order in which the dictionary gives the names does not matter. -/
def expandRange (p : Python) (ns : List Char) : Except Raised (List Int) := do
  let fs ← (ns.splitOn ',').mapM (expandPart p)
  let xs ← (fs.flatten.dedup.filter (· ≠ [])).mapM (toInt p)
  .ok (xs.mergeSort fun a b => decide (a ≤ b))

/-- `str(i)` -/
def str (i : Int) : List Char := if i < 0 then '-' :: decimal i.natAbs else decimal i.toNat

/-- The loop over the pages behind the first, `c` the last page and `r` for a run that is open. -/
def collapseLoop (c : Int) (r : Bool) : List Int → List Char
  | [] => if r then '-' :: str c else []
  | i :: x =>
    if i = c + 1 then collapseLoop i true x
    else (if r then '-' :: str c else []) ++ ',' :: (str i ++ collapseLoop i false x)

def collapseRange : List Int → List Char
  | [] => []
  | a :: x => str a ++ collapseLoop a false x

/-! ## What is asked -/

/-- The parts are numbers: digits, dashes and commas, and blanks between them. -/
def Numeric (p : Python) (s : List Char) : Prop :=
  ∀ c ∈ s, c.isDigit = true ∨ c = '-' ∨ c = ',' ∨ p.blanks.is c = true

instance (p : Python) (s : List Char) : Decidable (Numeric p s) :=
  List.decidableBAll _ s

/-- A canonical form: it is read as the same pages, and printed and read again it stays. -/
def Canonical (p : Python) (l : List Int) : Prop :=
  expandRange p (collapseRange l) = .ok l ∧
    ∀ l', expandRange p (collapseRange l) = .ok l' → collapseRange l' = collapseRange l

def parts (p : Python) (s : List Char) : List (List Char) :=
  (s.splitOn ',').map (strip p.blanks)

/-- A part names a page with a number of digits: a single number with its own, a range with those
of its first number if that has zeros in front, and else with no more than it takes. -/
def Names (p : Python) (n : List Char) (v w : Nat) : Prop :=
  match n.splitOn '-' with
  | [r0, r1] =>
    ∃ lo hi, int p.blanks p.underscores r0 = some lo ∧ int p.blanks p.underscores r1 = some hi ∧
      lo ≤ v ∧ v ≤ hi ∧ w = if LeadingZero r0 then r0.length else (decimal v).length
  | _ => int p.blanks p.underscores n = some (v : Int) ∧ w = n.length

/-- **No page is named with different numbers of digits.** -/
def Unambiguous (p : Python) (s : List Char) : Prop :=
  ∀ m ∈ parts p s, ∀ n ∈ parts p s, ∀ v w w', Names p m v w → Names p n v w' → w = w'

/-! ## Lists of results -/

section Results

variable {α β : Type} {f : α → Except Raised β} {g : α → β} {l l' : List α} {bs bs' : List β}

theorem mapM_ok (h : ∀ a ∈ l, f a = .ok (g a)) : l.mapM f = .ok (l.map g) := by
  induction l with
  | nil => rfl
  | cons a l ih =>
    rw [List.mapM_cons, h a List.mem_cons_self, ih fun a ha => h a (List.mem_cons_of_mem _ ha)]
    rfl

theorem mapM_cons_ok {a : α} {b : β} (ha : f a = .ok b) (hl : l.mapM f = .ok bs) :
    (a :: l).mapM f = .ok (b :: bs) := by
  rw [List.mapM_cons, ha, hl]
  rfl

theorem of_mapM_ok (h : l.mapM f = .ok bs) :
    (∀ a ∈ l, ∃ b, f a = .ok b) ∧ ∀ b, b ∈ bs ↔ ∃ a ∈ l, f a = .ok b := by
  induction l generalizing bs with
  | nil =>
    cases h
    exact ⟨fun _ ha => absurd ha List.not_mem_nil, fun b => by simp⟩
  | cons a l ih =>
    rw [List.mapM_cons] at h
    cases ha : f a with
    | error e =>
      rw [ha] at h
      cases h
    | ok b =>
      cases hl : l.mapM f with
      | error e =>
        rw [ha, hl] at h
        cases h
      | ok bs' =>
        rw [ha, hl] at h
        cases h
        obtain ⟨hall, hmem⟩ := ih hl
        refine ⟨List.forall_mem_cons.mpr ⟨⟨b, ha⟩, hall⟩, fun b' => ?_⟩
        rw [List.mem_cons, hmem, List.exists_mem_cons_iff, ha]
        exact or_congr_left ⟨fun h => h ▸ rfl, fun h => (Except.ok.inj h).symm⟩

end Results

/-! ## The printed text -/

abbrev pages (x : List Nat) : List Int := x.map fun n : Nat => (n : Int)

section Printed

variable {p : Python} {a c n : Nat} {x : List Nat} {t s : List Char}

theorem number_not_blank (p : Python) (ht : IsNumber t) : ∀ c ∈ t, p.blanks.is c = false :=
  fun _ hc => p.plain.not_digit (ht.2 _ hc)

theorem toInt_number (p : Python) (ht : IsNumber t) : toInt p t = .ok (value t : Int) := by
  rw [toInt, int_number p.plain ht]

theorem str_natCast (n : Nat) : str (n : Int) = decimal n := by
  rw [str, if_neg (by lia), Int.toNat_natCast]

theorem expandPart_number (ht : IsNumber t) : expandPart p t = .ok [t] := by
  have hdash : '-' ∉ t := fun h => absurd (ht.2 _ h) (by decide)
  simp only [expandPart, strip_eq_self (number_not_blank p ht), List.splitOn_eq_singleton hdash]

theorem mem_numbers {lo hi : Int} {i : Nat} (hlo : 0 ≤ lo) (hle : lo ≤ hi) :
    i ∈ numbers lo hi ↔ lo ≤ i ∧ (i : Int) ≤ hi := by
  rw [numbers, List.mem_range'_1]
  lia

theorem expandPart_range (h : a < c) :
    expandPart p (decimal a ++ '-' :: decimal c)
      = .ok ((List.range' a (c + 1 - a)).map decimal) := by
  have ha := decimal_isNumber a
  have hc := decimal_isNumber c
  have hdash : ∀ n, '-' ∉ decimal n := fun n h => absurd ((decimal_isNumber n).2 _ h) (by decide)
  have hstrip : strip p.blanks (decimal a ++ '-' :: decimal c) = decimal a ++ '-' :: decimal c := by
    refine strip_eq_self fun d hd => ?_
    rcases List.mem_append.mp hd with hd | hd
    · exact number_not_blank p ha d hd
    · rcases List.mem_cons.mp hd with rfl | hd
      · cases hblank : p.blanks.is '-' with
        | false => rfl
        | true => exact absurd rfl (p.plain '-' hblank).2.1
      · exact number_not_blank p hc d hd
  have hsplit : (decimal a ++ '-' :: decimal c).splitOn '-' = [decimal a, decimal c] := by
    rw [List.splitOn_append_cons_self_of_not_mem (hdash a), List.splitOn_eq_singleton (hdash c)]
  have hheader : (decimal a).rdropWhile Char.isDigit = [] := List.rdropWhile_eq_nil_iff.mpr ha.2
  have hlead : ¬ LeadingZero (decimal a) := by
    rintro ⟨hne, hzero⟩
    rcases decimal_head a with heq | hhead
    · exact hne heq
    · exact hhead hzero
  have hnames : (fun i => [] ++ zeroPadded 0 i) = decimal :=
    funext fun i => zeroPadded_short (Nat.zero_le _)
  have hle : ¬ ((value (decimal c) : Int) < (value (decimal a) : Int)) := by
    rw [value_decimal, value_decimal]
    lia
  simp only [expandPart, hstrip, hsplit, hheader, List.length_nil, List.drop_zero]
  rw [if_neg (by simp [ha.1, hc.1]), if_neg fun h => hlead h.1, toInt_number p ha,
    toInt_number p hc]
  simp only [Except.bind, bind]
  rw [if_neg hle, if_neg List.not_mem_nil, if_neg hlead, hnames, numbers, value_decimal,
    value_decimal, Int.toNat_natCast, Int.toNat_natCast]

def openPart (a c : Nat) : List Char :=
  decimal a ++ if a < c then '-' :: decimal c else []

theorem expandPart_openPart (h : a ≤ c) :
    expandPart p (openPart a c) = .ok ((List.range' a (c + 1 - a)).map decimal) := by
  rw [openPart]
  split
  · rename_i hlt
    exact expandPart_range hlt
  · have heq : a = c := by lia
    rw [List.append_nil, expandPart_number (decimal_isNumber a), heq, Nat.add_sub_cancel_left]
    rfl

theorem comma_notMem_openPart : ',' ∉ openPart a c := by
  have hcomma : ∀ n, ',' ∉ decimal n := fun n h => absurd ((decimal_isNumber n).2 _ h) (by decide)
  rw [openPart]
  split
  · simp [hcomma]
  · simp [hcomma]

theorem close_eq (a c : Nat) :
    (if decide (a < c) = true then '-' :: str (c : Int) else [])
      = if a < c then '-' :: decimal c else [] := by
  rw [str_natCast]
  simp only [decide_eq_true_eq]

/-- **The loop**: behind an open part from `a` to `c` it prints the pages that are left. -/
theorem collapseLoop_names (h : a ≤ c) :
    ∃ fs, ((decimal a ++ collapseLoop c (decide (a < c)) (pages x)).splitOn ',').mapM
        (expandPart p) = .ok fs
      ∧ fs.flatten = (List.range' a (c + 1 - a) ++ x).map decimal := by
  induction x generalizing a c with
  | nil =>
    rw [pages, List.map_nil, collapseLoop, close_eq]
    show ∃ fs, ((openPart a c).splitOn ',').mapM (expandPart p) = .ok fs ∧ _
    rw [List.splitOn_eq_singleton comma_notMem_openPart]
    refine ⟨_, mapM_cons_ok (expandPart_openPart h) (List.mapM_nil (f := expandPart p)), ?_⟩
    rw [List.flatten_singleton, List.append_nil]
  | cons i x ih =>
    rw [pages, List.map_cons, collapseLoop]
    by_cases hrun : (i : Int) = c + 1
    · have hi : i = c + 1 := by lia
      have htrue : decide (a < i) = true := decide_eq_true (by lia)
      obtain ⟨fs, hfs, hnames⟩ := ih (a := a) (c := i) (by lia)
      rw [htrue] at hfs
      rw [if_pos hrun]
      refine ⟨fs, hfs, hnames.trans ?_⟩
      have hcount : i + 1 - a = c + 1 - a + 1 := by lia
      have hlast : a + 1 * (c + 1 - a) = i := by lia
      rw [hcount, List.range'_concat, hlast, List.append_assoc]
      rfl
    · obtain ⟨fs, hfs, hnames⟩ := ih (a := i) (c := i) (Nat.le_refl i)
      have hfalse : decide (i < i) = false := decide_eq_false (Nat.lt_irrefl i)
      rw [hfalse] at hfs
      rw [if_neg hrun, close_eq, str_natCast, ← List.append_assoc]
      show ∃ fs, ((openPart a c ++ _).splitOn ',').mapM (expandPart p) = .ok fs ∧ _
      rw [List.splitOn_append_cons_self_of_not_mem comma_notMem_openPart]
      refine ⟨_, mapM_cons_ok (expandPart_openPart h) hfs, ?_⟩
      rw [List.flatten_cons, hnames, Nat.add_sub_cancel_left, ← List.map_append]
      rfl

theorem expandRange_collapseRange (x : List Nat) :
    expandRange p (collapseRange (pages x))
      = .ok ((pages x.dedup).mergeSort fun a b => decide (a ≤ b)) := by
  have hread : ∀ ns fs, (ns.splitOn ',').mapM (expandPart p) = .ok fs →
      fs.flatten.dedup.filter (· ≠ []) = x.dedup.map decimal →
      expandRange p ns
        = .ok ((pages x.dedup).mergeSort fun a b => decide (a ≤ b)) := by
    intro ns fs hfs hnames
    have hints : (x.dedup.map decimal).mapM (toInt p)
        = .ok ((x.dedup.map decimal).map fun t => (value t : Int)) := by
      refine mapM_ok fun t ht => ?_
      obtain ⟨n, -, rfl⟩ := List.mem_map.mp ht
      exact toInt_number p (decimal_isNumber n)
    have hvalues : (x.dedup.map decimal).map (fun t => (value t : Int))
        = pages x.dedup := by
      rw [List.map_map]
      exact List.map_congr_left fun n _ => congrArg _ (value_decimal n)
    rw [hvalues] at hints
    simp only [expandRange, hfs, bind, Except.bind]
    rw [hnames, hints]
  cases x with
  | nil => exact hread [] [[[]]] rfl rfl
  | cons a x =>
    obtain ⟨fs, hfs, hnames⟩ := collapseLoop_names (p := p) (x := x) (Nat.le_refl a)
    rw [pages, List.map_cons, collapseRange, str_natCast]
    rw [decide_eq_false (Nat.lt_irrefl a)] at hfs
    refine hread _ fs hfs ?_
    rw [hnames, Nat.add_sub_cancel_left]
    show ((a :: x).map decimal).dedup.filter _ = _
    rw [List.dedup_map_of_injective decimal_inj, List.filter_eq_self]
    intro t ht
    obtain ⟨n, -, rfl⟩ := List.mem_map.mp ht
    exact decide_eq_true (decimal_isNumber n).1

end Printed

/-! ## A part that is read -/

section Parts

variable {p : Python} {n t : List Char} {ns : List (List Char)} {v w : Nat} {r0 r1 : List Char}

def Part (p : Python) (n : List Char) : Prop :=
  ∀ c ∈ n, c.isDigit = true ∨ c = '-' ∨ p.blanks.is c = true

theorem Part.stripped (h : Part p n) : Part p (strip p.blanks n) :=
  fun c hc => h c (mem_of_mem_strip hc)

theorem isSome_of_toInt {x : Int} (h : toInt p t = .ok x) :
    int p.blanks p.underscores t = some x := by
  rw [toInt] at h
  cases hint : int p.blanks p.underscores t with
  | none =>
    rw [hint] at h
    cases h
  | some y =>
    rw [hint] at h
    exact congrArg _ (Except.ok.inj h)

theorem Part.number (h : Part p n) (hdash : '-' ∉ n) {x : Int}
    (hint : int p.blanks p.underscores n = some x) :
    IsNumber (strip p.blanks n) ∧ x = value (strip p.blanks n) := by
  have hnumber : IsNumber (strip p.blanks n) := by
    rcases number_of_int p.plain h hint with hn | ⟨t, ht, -⟩
    · exact hn
    · exact absurd (mem_of_mem_strip (ht ▸ List.mem_cons_self)) hdash
  rw [← int_strip, int_number p.plain hnumber] at hint
  exact ⟨hnumber, (Option.some.inj hint).symm⟩

theorem expandPart_single (h : ∀ r0 r1, (strip p.blanks n).splitOn '-' ≠ [r0, r1]) :
    expandPart p n = .ok [strip p.blanks n] := by
  rw [expandPart]
  split
  · exact absurd ‹_› (h _ _)
  · rfl

theorem names_single (h : ∀ r0 r1, n.splitOn '-' ≠ [r0, r1]) :
    Names p n v w ↔ int p.blanks p.underscores n = some (v : Int) ∧ w = n.length := by
  rw [Names]
  split
  · exact absurd ‹_› (h _ _)
  · rfl

theorem single_number (hn : Part p n) (hstrip : strip p.blanks n = n)
    (h : ∀ r0 r1, n.splitOn '-' ≠ [r0, r1]) {x : Int}
    (hint : int p.blanks p.underscores n = some x) : IsNumber n := by
  rcases number_of_int p.plain hn hint with hnumber | ⟨t, ht, hnumber⟩
  · exact hstrip ▸ hnumber
  · have hdash : '-' ∉ t := fun hmem => absurd (hnumber.2 _ hmem) (by decide)
    rw [hstrip] at ht
    refine absurd ?_ (h [] t)
    rw [ht]
    have hsplit : ([] ++ '-' :: t).splitOn '-' = [] :: t.splitOn '-' :=
      List.splitOn_append_cons_self_of_not_mem List.not_mem_nil t
    rw [List.splitOn_eq_singleton hdash] at hsplit
    exact hsplit

theorem of_split (h : n.splitOn '-' = [r0, r1]) :
    n = r0 ++ '-' :: r1 ∧ '-' ∉ r0 ∧ '-' ∉ r1 := by
  have hjoin : ['-'].intercalate (n.splitOn '-') = n := List.intercalate_splitOn '-'
  have hclean : ∀ r ∈ n.splitOn '-', '-' ∉ r := by
    intro r hr hmem
    have hnot := (of_mem_splitOnP (· == '-') hr).1 '-' hmem
    exact absurd hnot (by decide)
  rw [h] at hjoin hclean
  refine ⟨hjoin.symm.trans ?_, hclean r0 List.mem_cons_self,
    hclean r1 (List.mem_cons_of_mem _ List.mem_cons_self)⟩
  simp [List.intercalate, List.intersperse]

theorem header_nil (hn : Part p n) (hstrip : strip p.blanks n = n)
    (hsplit : n.splitOn '-' = [r0, r1])
    {w i : Nat} (hint : (int p.blanks p.underscores
      (r0.rdropWhile Char.isDigit ++ zeroPadded w i)).isSome = true) :
    r0.rdropWhile Char.isDigit = [] := by
  obtain ⟨hjoin, hdash, -⟩ := of_split hsplit
  obtain ⟨rest, hrest⟩ := List.rdropWhile_prefix Char.isDigit r0
  have hpad : IsNumber (zeroPadded w i) := zeroPadded_isNumber
  have hmem : ∀ c ∈ r0.rdropWhile Char.isDigit, c ∈ r0 :=
    fun c hc => (List.rdropWhile_prefix Char.isDigit r0).subset hc
  have hpart : Part p (r0.rdropWhile Char.isDigit ++ zeroPadded w i) := by
    intro c hc
    rcases List.mem_append.mp hc with hc | hc
    · refine hn c ?_
      rw [hjoin]
      exact List.mem_append_left _ (hmem c hc)
    · exact .inl (hpad.2 c hc)
  have hnodash : '-' ∉ r0.rdropWhile Char.isDigit ++ zeroPadded w i := by
    intro hc
    rcases List.mem_append.mp hc with hc | hc
    · exact hdash (hmem _ hc)
    · exact absurd (hpad.2 _ hc) (by decide)
  obtain ⟨x, hx⟩ := Option.isSome_iff_exists.mp hint
  have hnumber := (hpart.number hnodash hx).1
  by_contra hne
  -- the name begins like the part, and ends with a digit
  have hends : strip p.blanks (r0.rdropWhile Char.isDigit ++ zeroPadded w i)
      = r0.rdropWhile Char.isDigit ++ zeroPadded w i := by
    refine strip_eq_self_of_ends (fun c hc => ?_) fun c hc => ?_
    · rw [List.head?_append_of_ne_nil _ hne] at hc
      have hfirst : n.head? = some c := by
        rw [hjoin, ← hrest, List.append_assoc, List.head?_append_of_ne_nil _ hne]
        exact hc
      exact strip_first (hstrip.symm ▸ hfirst)
    · rw [List.getLast?_append_of_ne_nil _ hpad.1] at hc
      exact number_not_blank p hpad c (List.mem_of_getLast? hc)
  rw [hends] at hnumber
  exact List.rdropWhile_last_not Char.isDigit r0 hne
    (hnumber.2 _ (List.mem_append_left _ (List.getLast_mem hne)))

/-- **A range that is read**: two numbers, the first no larger, and its names. -/
theorem range_read (hn : Part p n) (hstrip : strip p.blanks n = n)
    (hsplit : n.splitOn '-' = [r0, r1])
    (h : expandPart p n = .ok ns)
    (hints : ∀ t ∈ ns, t ≠ [] → (int p.blanks p.underscores t).isSome = true) :
    IsNumber r0 ∧ IsNumber (strip p.blanks r1) ∧ value r0 ≤ value (strip p.blanks r1)
      ∧ (LeadingZero r0 → r1.length ≤ r0.length)
      ∧ ns = (numbers (value r0) (value (strip p.blanks r1))).map
          (zeroPadded (if LeadingZero r0 then r0.length else 0)) := by
  obtain ⟨hjoin, hdash0, hdash1⟩ := of_split hsplit
  have hpart0 : Part p r0 := fun c hc => hn c (by rw [hjoin]; exact List.mem_append_left _ hc)
  have hpart1 : Part p r1 := fun c hc =>
    hn c (by rw [hjoin]; exact List.mem_append_right _ (List.mem_cons_of_mem _ hc))
  simp only [expandPart, hstrip, hsplit] at h
  split at h
  · cases h
  rename_i hempty
  split at h
  · cases h
  rename_i hwide
  have htail : r0.drop (r0.rdropWhile Char.isDigit).length = r0.rtakeWhile Char.isDigit := by
    have hboth := congrArg (List.drop (r0.rdropWhile Char.isDigit).length)
      (List.rdropWhile_append_rtakeWhile (p := Char.isDigit) (l := r0))
    rw [List.drop_left] at hboth
    exact hboth.symm
  have hnumber0 : IsNumber (r0.drop (r0.rdropWhile Char.isDigit).length) := by
    refine ⟨fun hnil => hempty (.inl hnil), ?_⟩
    rw [htail]
    exact fun _ hc => List.mem_rtakeWhile_imp hc
  rw [toInt_number p hnumber0] at h
  cases hi1 : toInt p r1 with
  | error e =>
    rw [hi1] at h
    cases h
  | ok hi =>
    obtain ⟨hnumber1, rfl⟩ := hpart1.number hdash1 (isSome_of_toInt hi1)
    rw [hi1] at h
    simp only [bind, Except.bind] at h
    split at h
    · cases h
    rename_i hbad
    split at h
    · cases h
    have hns := Except.ok.inj h
    -- one of the names tells that the header is empty
    have hname : r0.rdropWhile Char.isDigit ++ zeroPadded
        (if LeadingZero (r0.drop (r0.rdropWhile Char.isDigit).length) then
          max (r0.drop (r0.rdropWhile Char.isDigit).length).length r1.length else 0)
        (value (r0.drop (r0.rdropWhile Char.isDigit).length)) ∈ ns := by
      rw [← hns]
      exact List.mem_map.mpr ⟨_, (mem_numbers (by lia) (by lia)).mpr ⟨by lia, by lia⟩, rfl⟩
    have hnil := header_nil hn hstrip hsplit
      (hints _ hname (List.append_ne_nil_of_right_ne_nil _ zeroPadded_isNumber.1))
    rw [hnil, List.length_nil, List.drop_zero] at hnumber0 hwide hbad hns
    refine ⟨hnumber0, hnumber1, by lia, fun hlead => ?_, ?_⟩
    · exact Nat.not_lt.mp fun hlt => hwide ⟨hlead, hlt⟩
    · rw [← hns]
      refine List.map_congr_left fun i _ => ?_
      rw [List.nil_append]
      split
      · rename_i hlead
        rw [Nat.max_eq_left (Nat.not_lt.mp fun hlt => hwide ⟨hlead, hlt⟩)]
      · rfl

/-- **The names of a part** are those that the part names, each with its number of digits. -/
theorem mem_names (hn : Part p n) (h : expandPart p n = .ok ns)
    (hints : ∀ t ∈ ns, t ≠ [] → (int p.blanks p.underscores t).isSome = true) :
    (∀ v w, Names p (strip p.blanks n) v w → (decimal v).length ≤ w)
      ∧ ∀ t, t ∈ ns ∧ t ≠ [] ↔ ∃ v w, Names p (strip p.blanks n) v w ∧ t = zeroPadded w v := by
  have hstrip := strip_strip p.blanks n
  have hagain : expandPart p (strip p.blanks n) = .ok ns := by
    rw [expandPart, hstrip]
    exact h
  generalize hm : strip p.blanks n = m at hstrip hagain
  have hpart : Part p m := hm ▸ hn.stripped
  by_cases hrange : ∃ r0 r1, m.splitOn '-' = [r0, r1]
  · obtain ⟨r0, r1, hsplit⟩ := hrange
    obtain ⟨hr0, hr1, hle, hwide, rfl⟩ := range_read hpart hstrip hsplit hagain hints
    have hnames : ∀ v w, Names p m v w ↔ value r0 ≤ v ∧ v ≤ value (strip p.blanks r1)
        ∧ w = if LeadingZero r0 then r0.length else (decimal v).length := by
      intro v w
      have hint0 := int_number (u := p.underscores) p.plain hr0
      have hint1 := int_number (u := p.underscores) p.plain hr1
      rw [int_strip] at hint1
      rw [Names, hsplit]
      simp only [hint0, hint1, Option.some.injEq, exists_eq_left', exists_and_left, Int.ofNat_le]
    refine ⟨fun v w hname => ?_, fun t => ?_⟩
    · obtain ⟨-, hv, rfl⟩ := (hnames v w).mp hname
      split
      · rename_i hlead
        refine (length_decimal_le hr1 hv).trans ((List.Sublist.length_le ?_).trans (hwide hlead))
        exact (List.rdropWhile_prefix _ _).sublist.trans (List.dropWhile_suffix _).sublist
      · exact Nat.le_refl _
    -- a width of no digits is that of the number itself
    have hpadded : ∀ v, zeroPadded (if LeadingZero r0 then r0.length else 0) v
        = zeroPadded (if LeadingZero r0 then r0.length else (decimal v).length) v := by
      intro v
      split
      · rfl
      · rw [zeroPadded_short (Nat.zero_le _), zeroPadded_short (Nat.le_refl _)]
    constructor
    · rintro ⟨ht, -⟩
      obtain ⟨v, hv, rfl⟩ := List.mem_map.mp ht
      obtain ⟨hlo, hhi⟩ := (mem_numbers (by lia) (by lia)).mp hv
      exact ⟨v, _, (hnames v _).mpr ⟨by lia, by lia, rfl⟩, hpadded v⟩
    · rintro ⟨v, w, hname, rfl⟩
      obtain ⟨hlo, hhi, rfl⟩ := (hnames v w).mp hname
      rw [← hpadded]
      exact ⟨List.mem_map.mpr ⟨v, (mem_numbers (by lia) (by lia)).mpr ⟨by lia, by lia⟩, rfl⟩,
        zeroPadded_isNumber.1⟩
  · have hsingle : ∀ r0 r1, m.splitOn '-' ≠ [r0, r1] := fun r0 r1 h => hrange ⟨r0, r1, h⟩
    rw [expandPart_single (hstrip.symm ▸ hsingle), hstrip] at hagain
    obtain rfl := Except.ok.inj hagain
    -- what is read of it is its value
    have hread : ∀ x : Int, int p.blanks p.underscores m = some x → IsNumber m ∧ x = value m := by
      intro x hx
      have hnumber := single_number hpart hstrip hsingle hx
      rw [int_number p.plain hnumber] at hx
      exact ⟨hnumber, (Option.some.inj hx).symm⟩
    refine ⟨fun v w hname => ?_, fun t => ?_⟩
    · obtain ⟨hint, rfl⟩ := (names_single hsingle).mp hname
      obtain ⟨hnumber, hv⟩ := hread _ hint
      exact length_decimal_le hnumber (by lia)
    · constructor
      · rintro ⟨ht, hne⟩
        obtain ⟨x, hx⟩ := Option.isSome_iff_exists.mp (hints t ht hne)
        obtain rfl := List.mem_singleton.mp ht
        obtain ⟨hnumber, rfl⟩ := hread x hx
        exact ⟨value t, t.length, (names_single hsingle).mpr ⟨hx, rfl⟩,
          (zeroPadded_value hnumber).symm⟩
      · rintro ⟨v, w, hname, rfl⟩
        obtain ⟨hint, rfl⟩ := (names_single hsingle).mp hname
        obtain ⟨hnumber, hv⟩ := hread _ hint
        have hvalue : v = value m := by lia
        rw [hvalue, zeroPadded_value hnumber]
        exact ⟨List.mem_singleton_self m, hnumber.1⟩

end Parts

/-! ## A text that is read -/

section Texts

variable {p : Python} {s : List Char} {l : List Int}

theorem names_read (hs : Numeric p s) (h : expandRange p s = .ok l) :
    (∀ n ∈ parts p s, ∀ v w, Names p n v w → (decimal v).length ≤ w)
      ∧ ∃ names : List (List Char), names.Nodup
        ∧ l = (names.map fun t => (value t : Int)).mergeSort (fun a b => decide (a ≤ b))
        ∧ ∀ t, t ∈ names ↔ ∃ n ∈ parts p s, ∃ v w, Names p n v w ∧ t = zeroPadded w v := by
  rw [expandRange] at h
  cases hfs : (s.splitOn ',').mapM (expandPart p) with
  | error e =>
    rw [hfs] at h
    cases h
  | ok fs =>
    cases hxs : (fs.flatten.dedup.filter (· ≠ [])).mapM (toInt p) with
    | error e =>
      rw [hfs] at h
      simp only [bind, Except.bind, hxs] at h
      cases h
    | ok xs =>
      rw [hfs] at h
      simp only [bind, Except.bind, hxs] at h
      obtain ⟨hparts, hmem⟩ := of_mapM_ok hfs
      have hints := (of_mapM_ok hxs).1
      have hpart : ∀ n ∈ s.splitOn ',', Part p n := by
        intro n hn c hc
        have hcomma := (of_mem_splitOnP (· == ',') hn).1 c hc
        rcases hs c (mem_of_mem_splitOn hn hc) with hdigit | hdash | rfl | hblank
        · exact .inl hdigit
        · exact .inr (.inl hdash)
        · exact absurd hcomma (by decide)
        · exact .inr (.inr hblank)
      have hread : ∀ n ∈ s.splitOn ',', ∀ ns, expandPart p n = .ok ns →
          ∀ t ∈ ns, t ≠ [] → (int p.blanks p.underscores t).isSome = true := by
        intro n hn ns hns t ht hne
        have hname : t ∈ fs.flatten.dedup.filter (· ≠ []) :=
          List.mem_filter.mpr ⟨List.mem_dedup.mpr (List.mem_flatten.mpr
            ⟨ns, (hmem ns).mpr ⟨n, hn, hns⟩, ht⟩), decide_eq_true hne⟩
        obtain ⟨x, hx⟩ := hints t hname
        exact Option.isSome_iff_exists.mpr ⟨x, isSome_of_toInt hx⟩
      have hnames : ∀ t, t ∈ fs.flatten.dedup.filter (· ≠ [])
          ↔ ∃ n ∈ parts p s, ∃ v w, Names p n v w ∧ t = zeroPadded w v := by
        intro t
        rw [List.mem_filter, List.mem_dedup, List.mem_flatten, decide_eq_true_iff]
        constructor
        · rintro ⟨⟨ns, hns, ht⟩, hne⟩
          obtain ⟨n, hn, hexpand⟩ := (hmem ns).mp hns
          exact ⟨_, List.mem_map_of_mem hn,
            ((mem_names (hpart n hn) hexpand (hread n hn ns hexpand)).2 t).mp ⟨ht, hne⟩⟩
        · rintro ⟨m, hm, hname⟩
          obtain ⟨n, hn, rfl⟩ := List.mem_map.mp hm
          obtain ⟨ns, hexpand⟩ := hparts n hn
          obtain ⟨ht, hne⟩ :=
            ((mem_names (hpart n hn) hexpand (hread n hn ns hexpand)).2 t).mpr hname
          exact ⟨⟨ns, (hmem ns).mpr ⟨n, hn, hexpand⟩, ht⟩, hne⟩
      refine ⟨?_, _, (List.nodup_dedup _).filter _, ?_, hnames⟩
      · intro m hm
        obtain ⟨n, hn, rfl⟩ := List.mem_map.mp hm
        obtain ⟨ns, hexpand⟩ := hparts n hn
        exact (mem_names (hpart n hn) hexpand (hread n hn ns hexpand)).1
      · have hvalues := mapM_ok (f := toInt p) (g := fun t => (value t : Int)) fun t ht => by
          obtain ⟨n, -, v, w, -, rfl⟩ := (hnames t).mp ht
          exact toInt_number p zeroPadded_isNumber
        rw [hxs] at hvalues
        rw [← Except.ok.inj hvalues]
        exact (Except.ok.inj h).symm

/-- **No page comes twice** out of a text that is unambiguous. -/
theorem nodup_iff (hs : Numeric p s) (h : expandRange p s = .ok l) :
    l.Nodup ↔ Unambiguous p s := by
  obtain ⟨hwidth, names, hnodup, rfl, hnames⟩ := names_read hs h
  rw [(List.mergeSort_perm _ _).nodup_iff, List.nodup_map_iff_inj_on hnodup]
  constructor
  · intro hinj m hm n hn v w w' hw hw'
    have hsame := hinj _ ((hnames _).mpr ⟨m, hm, v, w, hw, rfl⟩) _
      ((hnames _).mpr ⟨n, hn, v, w', hw', rfl⟩) (by rw [value_zeroPadded, value_zeroPadded])
    have hlen := congrArg List.length hsame
    rwa [length_zeroPadded (hwidth m hm v w hw), length_zeroPadded (hwidth n hn v w' hw')] at hlen
  · intro hunique t ht t' ht' hvalue
    obtain ⟨m, hm, v, w, hw, rfl⟩ := (hnames t).mp ht
    obtain ⟨n, hn, v', w', hw', rfl⟩ := (hnames t').mp ht'
    rw [value_zeroPadded, value_zeroPadded] at hvalue
    obtain rfl := Int.ofNat_inj.mp hvalue
    rw [hunique m hm n hn v w w' hw hw']

theorem sorted_mergeSort (xs : List Int) :
    (xs.mergeSort fun a b => decide (a ≤ b)).Pairwise fun a b => decide (a ≤ b) = true := by
  refine List.pairwise_mergeSort ?_ ?_ xs
  · intro a b c hab hbc
    exact decide_eq_true (Int.le_trans (of_decide_eq_true hab) (of_decide_eq_true hbc))
  · intro a b
    rcases Int.le_total a b with hab | hba
    · rw [decide_eq_true hab]
      rfl
    · rw [decide_eq_true hba, Bool.or_true]

theorem comes_back_iff (hpos : ∀ i ∈ l, 0 ≤ i)
    (hsorted : l.Pairwise fun a b => decide (a ≤ b) = true) :
    expandRange p (collapseRange l) = .ok l ↔ l.Nodup := by
  have hpages : pages (l.map Int.toNat) = l := by
    rw [pages, List.map_map]
    exact (List.map_congr_left fun i hi => Int.toNat_of_nonneg (hpos i hi)).trans (List.map_id l)
  have hcast : Function.Injective fun n : Nat => (n : Int) := fun _ _ h => Int.ofNat_inj.mp h
  have hread := expandRange_collapseRange (p := p) (l.map Int.toNat)
  rw [hpages, pages, ← List.dedup_map_of_injective hcast] at hread
  rw [show (l.map Int.toNat).map (fun n : Nat => (n : Int)) = l from hpages] at hread
  rw [hread]
  constructor
  · intro h
    rw [← Except.ok.inj h]
    exact (List.mergeSort_perm _ _).nodup_iff.mpr (List.nodup_dedup l)
  · intro h
    rw [h.dedup, List.mergeSort_of_pairwise hsorted]

/-- **Page ranges**: a strictly increasing list of pages comes back from its text, and a text of
numbers that is read has a canonical form just if it names no page with different numbers of
digits. -/
theorem pageRanges (p : Python) :
    (∀ x : List Int, (∀ i ∈ x, 0 ≤ i) → x.Pairwise (· < ·) →
        expandRange p (collapseRange x) = .ok x)
      ∧ ∀ s l, Numeric p s → expandRange p s = .ok l → (Canonical p l ↔ Unambiguous p s) := by
  constructor
  · intro x hpos hlt
    refine (comes_back_iff hpos (hlt.imp fun h => decide_eq_true (Int.le_of_lt h))).mpr ?_
    exact hlt.imp fun h => (Int.ne_of_lt h)
  · intro s l hs h
    obtain ⟨-, names, -, hl, -⟩ := names_read hs h
    have hpos : ∀ i ∈ l, 0 ≤ i := by
      intro i hi
      rw [hl, List.mem_mergeSort] at hi
      obtain ⟨t, -, rfl⟩ := List.mem_map.mp hi
      exact Int.natCast_nonneg _
    have hsorted : l.Pairwise fun a b => decide (a ≤ b) = true := hl ▸ sorted_mergeSort _
    rw [← nodup_iff hs h, ← comes_back_iff (p := p) hpos hsorted, Canonical]
    refine and_iff_left_of_imp fun hback l' hl' => ?_
    rw [hback] at hl'
    rw [Except.ok.inj hl']

end Texts

theorem ascii_plain : Blanks.ascii.Plain := by
  intro c hc
  have hrange : c = ' ' ∨ '\t' ≤ c ∧ c ≤ '\r' := of_decide_eq_true hc
  have hsmall : c.toNat ≤ 32 := by
    rcases hrange with rfl | ⟨-, hle⟩
    · decide
    · exact Nat.le_trans (UInt32.le_iff_toNat_le.mp hle) (by decide)
  have hne : ∀ d : Char, 32 < d.toNat → c ≠ d := by
    rintro d hd rfl
    exact absurd hsmall (Nat.not_le.mpr hd)
  have hdigit : digit c = none := by
    rw [digit, Option.map_eq_none_iff, List.find?_eq_none]
    intro z hz
    have hlarge : 48 ≤ z := (by decide : ∀ z ∈ zeros, 48 ≤ z) z hz
    rw [Bool.and_eq_true, decide_eq_true_iff, decide_eq_true_iff]
    lia
  exact ⟨hne ',' (by decide), hne '-' (by decide), hne '+' (by decide), hne '_' (by decide),
    hdigit⟩

def bytesPython : Python := ⟨.ascii, false, ascii_plain⟩

theorem pageRanges_run : expandRange bytesPython (collapseRange [1, 2, 3, 7]) = .ok [1, 2, 3, 7] :=
  (pageRanges bytesPython).1 [1, 2, 3, 7] (by decide) (by decide)

/-- The page 7, named twice: it is read as two pages, and these do not come back. -/
theorem seven_twice : ¬ ∀ s l, Numeric bytesPython s → expandRange bytesPython s = .ok l →
    Canonical bytesPython l := by
  intro h
  have hnumeric : Numeric bytesPython ['7', ',', '0', '7'] := by decide
  have hread : expandRange bytesPython ['7', ',', '0', '7'] = .ok [7, 7] := by
    have hparts : (List.splitOn ',' ['7', ',', '0', '7']).mapM (expandPart bytesPython)
        = .ok [[['7']], [['0', '7']]] := by decide
    have hnames : ([[['7']], [['0', '7']]] : List (List (List Char))).flatten.dedup.filter (· ≠ [])
        = [['7'], ['0', '7']] := by decide
    have hints : ([['7'], ['0', '7']] : List (List Char)).mapM (toInt bytesPython)
        = .ok [7, 7] := by decide
    rw [expandRange, hparts]
    simp only [bind, Except.bind]
    rw [hnames, hints]
    exact congrArg Except.ok (List.mergeSort_of_pairwise (by decide))
  have hback := (h _ _ hnumeric hread).1
  have honce := (comes_back_iff (by decide) (by decide)).mp hback
  exact absurd honce (by decide)

end Hplip.PageRange
