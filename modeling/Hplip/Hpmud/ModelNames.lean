import Hplip.Hpmud.DeviceId

/-!
# One name for a model on both sides

The Python side and the C side each turn the model string of a device id into the name
that a URI carries and that the model table is searched for. The C side is
`generalizeModel` of the device ids; here is the Python side, a chain of replacements, and
the comparison of the two.
-/

namespace Hplip.Hpmud

open CString

/-! ## The Python side -/

/-- `replace(a, b)` for one character. -/
def replaceChar (a b : UInt8) (s : List UInt8) : List UInt8 :=
  s.map fun c => if c = a then b else c

/-- `replace('__', '_')`: from the left, and what was put in is not looked at again. -/
def replaceDouble : List UInt8 → List UInt8
  | a :: b :: s =>
    if a = ch '_' ∧ b = ch '_' then ch '_' :: replaceDouble s else a :: replaceDouble (b :: s)
  | s => s

/-- `xstrip`, which is `str.strip`. -/
def xstrip (s : List UInt8) (c : UInt8) : List UInt8 :=
  (s.dropWhile (· = c)).rdropWhile (· = c)

def normalizeModelName (model : List UInt8) : List UInt8 :=
  let model := replaceDouble (replaceChar (ch ' ') (ch '_') model)
  let model := model.filter fun c => c ≠ ch '~'
  xstrip (replaceChar (ch '/') (ch '_') model) (ch '_')

/-- Both sides bring the model string `sz` to one name, and each leaves its own name as
it is. -/
structure NamesAlike (sz : List UInt8) (n : Nat) : Prop where
  same : Stores (fun buf => generalizeModel sz buf n) n (normalizeModelName sz)
  python : normalizeModelName (normalizeModelName sz) = normalizeModelName sz
  c : ∀ name, name.length < n → Stores (fun buf => generalizeModel sz buf n) n name →
    Stores (fun buf => generalizeModel name buf n) n name

/-! ## Names that come out alike -/

def isSeparator (c : UInt8) : Bool := isGap c || c = ch '_'

def Spaced : List UInt8 → Prop
  | a :: b :: s =>
    (isSeparator a = true → isSeparator b = true →
      a = ch ' ' ∧ b = ch ' ' ∧ s.head? ≠ some (ch ' ')) ∧ Spaced (b :: s)
  | _ => True

/-- The text between the blanks in front and the separators at the end. -/
def nameText (sz : List UInt8) : List UInt8 :=
  (sz.dropWhile (· = ch ' ')).rdropWhile isSeparator

/-- No tilde, no separator but blanks in front, and none together but two blanks. -/
structure PlainName (sz : List UInt8) : Prop where
  tilde : ch '~' ∉ sz
  begins : ∃ x m, sz.dropWhile (· = ch ' ') = x :: m ∧ isSeparator x = false
  spaced : Spaced (nameText sz)

theorem isSeparator_iff {c : UInt8} :
    isSeparator c = true ↔ c = ch ' ' ∨ c = ch '/' ∨ c = ch '_' := by
  simp [isSeparator, isGap, or_assoc]

theorem isSeparator_eq_false {c : UInt8} :
    isSeparator c = false ↔ c ≠ ch ' ' ∧ c ≠ ch '/' ∧ c ≠ ch '_' := by
  rw [← Bool.not_eq_true, isSeparator_iff]
  push Not
  exact Iff.rfl

theorem isGap_of_isSeparator {c : UInt8} (h : isSeparator c = false) : isGap c = false := by
  obtain ⟨hblank, hslash, -⟩ := isSeparator_eq_false.mp h
  simp [isGap, hblank, hslash]

/-! ## The replacements -/

def NoDouble (s : List UInt8) : Prop := s.IsChain fun a b => ¬ (a = ch '_' ∧ b = ch '_')

theorem replaceChar_append (a b : UInt8) (s t : List UInt8) :
    replaceChar a b (s ++ t) = replaceChar a b s ++ replaceChar a b t :=
  List.map_append

theorem replaceChar_cons {a c : UInt8} (h : c ≠ a) (b : UInt8) (s : List UInt8) :
    replaceChar a b (c :: s) = c :: replaceChar a b s := by
  rw [replaceChar, List.map_cons, if_neg h]
  rfl

theorem replaceChar_cons_self (a b : UInt8) (s : List UInt8) :
    replaceChar a b (a :: s) = b :: replaceChar a b s := by
  rw [replaceChar, List.map_cons, if_pos rfl]
  rfl

theorem replaceDouble_cons {x : UInt8} (hx : x ≠ ch '_') (s : List UInt8) :
    replaceDouble (x :: s) = x :: replaceDouble s := by
  cases s with
  | nil => rfl
  | cons b s => rw [replaceDouble, if_neg (fun h => hx h.1)]

theorem replaceDouble_append {x : UInt8} (hx : x ≠ ch '_') (u v : List UInt8) :
    replaceDouble (u ++ x :: v) = replaceDouble u ++ x :: replaceDouble v := by
  fun_induction replaceDouble u with
  | case1 a b s h ih => rw [List.cons_append, List.cons_append, replaceDouble, if_pos h, ih]; rfl
  | case2 a b s h ih =>
    rw [List.cons_append, List.cons_append, replaceDouble, if_neg h, ← List.cons_append, ih]
    rfl
  | case3 s hs =>
    match s, hs with
    | [], _ => exact replaceDouble_cons hx v
    | [a], _ =>
      rw [List.singleton_append, replaceDouble, if_neg (fun h => hx h.2), replaceDouble_cons hx]
      rfl
    | a :: b :: s, hs => exact absurd rfl (hs a b s)

theorem replaceDouble_subset (s : List UInt8) : replaceDouble s ⊆ s := by
  fun_induction replaceDouble s with
  | case1 a b s h ih =>
    rw [h.1]
    exact List.cons_subset_cons _ (List.Subset.trans ih (List.subset_cons_self _ _))
  | case2 a b s h ih => exact List.cons_subset_cons _ ih
  | case3 s hs => exact List.Subset.refl _

theorem replaceDouble_length_le (s : List UInt8) : (replaceDouble s).length ≤ s.length := by
  fun_induction replaceDouble s with
  | case1 a b s h ih => simp only [List.length_cons]; omega
  | case2 a b s h ih => simp only [List.length_cons] at ih ⊢; omega
  | case3 s hs => exact Nat.le_refl _

theorem replaceDouble_eq_iff (s : List UInt8) : replaceDouble s = s ↔ NoDouble s := by
  fun_induction replaceDouble s with
  | case1 a b s h ih =>
    refine iff_of_false (fun heq => ?_) (fun hs => (List.isChain_cons_cons.mp hs).1 h)
    have hlen := congrArg List.length heq
    have hle := replaceDouble_length_le s
    simp only [List.length_cons] at hlen
    omega
  | case2 a b s h ih =>
    rw [List.cons.injEq, ih, NoDouble, NoDouble, List.isChain_cons_cons]
    simp [h]
  | case3 s hs =>
    refine iff_of_true rfl ?_
    match s, hs with
    | [], _ => exact .nil
    | [a], _ => exact .singleton a
    | a :: b :: s, hs => exact absurd rfl (hs a b s)

def spread (s : List UInt8) : List UInt8 :=
  replaceChar (ch '/') (ch '_') (replaceDouble (replaceChar (ch ' ') (ch '_') s))

theorem mem_replaceChar {a b c : UInt8} {s : List UInt8} (h : c ∈ replaceChar a b s) :
    c = b ∨ (c ∈ s ∧ c ≠ a) := by
  obtain ⟨d, hd, rfl⟩ := List.mem_map.mp h
  by_cases hda : d = a
  · exact .inl (if_pos hda)
  · rw [if_neg hda]
    exact .inr ⟨hd, hda⟩

theorem mem_spread {c : UInt8} {s : List UInt8} (h : c ∈ spread s) :
    c = ch '_' ∨ (c ∈ s ∧ isGap c = false) := by
  rcases mem_replaceChar h with h | ⟨h, hslash⟩
  · exact .inl h
  · rcases mem_replaceChar (replaceDouble_subset _ h) with h | ⟨h, hblank⟩
    · exact .inl h
    · exact .inr ⟨h, by simp [isGap, hslash, hblank]⟩

theorem spread_append {x : UInt8} (hx : isSeparator x = false) (u v : List UInt8) :
    spread (u ++ x :: v) = spread u ++ x :: spread v := by
  obtain ⟨hblank, hslash, hline⟩ := isSeparator_eq_false.mp hx
  rw [spread, replaceChar_append, replaceChar_cons hblank, replaceDouble_append hline,
    replaceChar_append, replaceChar_cons hslash]
  rfl

theorem spread_cons {x : UInt8} (hx : isSeparator x = false) (s : List UInt8) :
    spread (x :: s) = x :: spread s :=
  spread_append hx [] s

theorem spread_slash (s : List UInt8) : spread (ch '/' :: s) = ch '_' :: spread s := by
  rw [spread, replaceChar_cons (by decide), replaceDouble_cons (by decide),
    replaceChar_cons_self]
  rfl

def isLine (c : UInt8) : Prop := c = ch ' ' ∨ c = ch '_'

theorem replaceChar_isLine {a : UInt8} (ha : isLine a) (s : List UInt8) :
    replaceChar (ch ' ') (ch '_') (a :: s) = ch '_' :: replaceChar (ch ' ') (ch '_') s := by
  rcases ha with rfl | rfl
  · exact replaceChar_cons_self _ _ s
  · exact replaceChar_cons (by decide) _ s

theorem spread_pair {a b : UInt8} (ha : isLine a) (hb : isLine b) (s : List UInt8) :
    spread (a :: b :: s) = ch '_' :: spread s := by
  rw [spread, replaceChar_isLine ha, replaceChar_isLine hb, replaceDouble, if_pos ⟨rfl, rfl⟩]
  rfl

theorem spread_single {a b : UInt8} (ha : isLine a) (hb : ¬ isLine b) (s : List UInt8) :
    spread (a :: b :: s) = ch '_' :: spread (b :: s) := by
  obtain ⟨hblank, hline⟩ := not_or.mp hb
  rw [spread, replaceChar_isLine ha, replaceChar_cons hblank, replaceDouble,
    if_neg (fun h => hline h.2), ← replaceChar_cons hblank]
  rfl

theorem spread_separator {a : UInt8} (ha : isSeparator a = true) (s : List UInt8) :
    ∃ t, spread (a :: s) = ch '_' :: t := by
  rcases isSeparator_iff.mp ha with rfl | rfl | rfl
  · cases s with
    | nil => exact ⟨[], rfl⟩
    | cons b s =>
      by_cases hb : isLine b
      · exact ⟨_, spread_pair (.inl rfl) hb s⟩
      · exact ⟨_, spread_single (.inl rfl) hb s⟩
  · exact ⟨_, spread_slash s⟩
  · cases s with
    | nil => exact ⟨[], rfl⟩
    | cons b s =>
      by_cases hb : isLine b
      · exact ⟨_, spread_pair (.inr rfl) hb s⟩
      · exact ⟨_, spread_single (.inr rfl) hb s⟩

theorem spread_single_separator {a : UInt8} (ha : isSeparator a = true) {s : List UInt8}
    (hs : ∀ b t, s = b :: t → isSeparator b = false) : spread (a :: s) = ch '_' :: spread s := by
  cases s with
  | nil =>
    rcases isSeparator_iff.mp ha with rfl | rfl | rfl
    · rfl
    · rfl
    · rfl
  | cons b t =>
    have hb : ¬ isLine b := by
      obtain ⟨hblank, -, hline⟩ := isSeparator_eq_false.mp (hs b t rfl)
      exact not_or.mpr ⟨hblank, hline⟩
    rcases isSeparator_iff.mp ha with rfl | rfl | rfl
    · exact spread_single (.inl rfl) hb t
    · exact spread_slash _
    · exact spread_single (.inr rfl) hb t

/-! ## The C side -/

theorem squeezed_length_le (dd : Bool) (s : List UInt8) :
    (squeezed dd s).length ≤ s.length := by
  induction s generalizing dd with
  | nil => exact Nat.le_refl _
  | cons c s ih =>
    have htrue := ih true
    have hfalse := ih false
    rw [squeezed]
    split
    · split
      · exact htrue.trans (Nat.le_succ _)
      · exact Nat.succ_le_succ htrue
    · exact Nat.succ_le_succ hfalse

theorem mem_squeezed {c : UInt8} {dd : Bool} {s : List UInt8} (h : c ∈ squeezed dd s) :
    c = ch '_' ∨ (c ∈ s ∧ isGap c = false) := by
  induction s generalizing dd with
  | nil => cases h
  | cons a s ih =>
    have htail : ∀ b, c ∈ squeezed b s → c = ch '_' ∨ (c ∈ a :: s ∧ isGap c = false) :=
      fun b hb => (ih hb).imp_right fun hc => ⟨List.mem_cons_of_mem _ hc.1, hc.2⟩
    rw [squeezed] at h
    by_cases ha : isGap a = true
    · rw [if_pos ha] at h
      cases dd with
      | true => exact htail true h
      | false =>
        rcases List.mem_cons.mp h with rfl | h
        · exact .inl rfl
        · exact htail true h
    · rw [if_neg ha] at h
      rcases List.mem_cons.mp h with rfl | h
      · exact .inr ⟨List.mem_cons_self, by simpa using ha⟩
      · exact htail false h

theorem squeezed_append {x : UInt8} (hx : isGap x = false) (dd : Bool) (u v : List UInt8) :
    squeezed dd (u ++ x :: v) = squeezed dd u ++ x :: squeezed false v := by
  induction u generalizing dd with
  | nil =>
    have hx' : ¬ isGap x = true := by simp [hx]
    rw [List.nil_append, squeezed.eq_2, if_neg hx', squeezed, List.nil_append]
  | cons a u ih =>
    rw [List.cons_append, squeezed, squeezed, ih, ih]
    split
    · split
      · rfl
      · rfl
    · rfl

theorem squeezed_eq_self {s : List UInt8} (hs : ∀ c ∈ s, isGap c = false) :
    squeezed false s = s := by
  induction s with
  | nil => rfl
  | cons a s ih =>
    rw [squeezed, if_neg (by simp [hs a List.mem_cons_self]),
      ih fun c hc => hs c (List.mem_cons_of_mem _ hc)]

theorem squeezed_separator {a : UInt8} (ha : isSeparator a = true) (s : List UInt8) :
    ∃ dd, squeezed false (a :: s) = ch '_' :: squeezed dd s := by
  by_cases hgap : isGap a = true
  · exact ⟨true, by rw [squeezed, if_pos hgap, if_neg Bool.false_ne_true]⟩
  · have hline : a = ch '_' := by
      rcases isSeparator_iff.mp ha with h | h | h
      · exact absurd (isGap_iff.mpr (.inl h)) hgap
      · exact absurd (isGap_iff.mpr (.inr h)) hgap
      · exact h
    exact ⟨false, by rw [squeezed, if_neg hgap, hline]⟩

theorem generalizeModel_stores_iff_trimmed {sz name : List UInt8} {n : Nat}
    (hsz : ∀ c ∈ sz, c ≠ 0) (hsemi : ch ';' ∉ sz) (hn : sz.length < n) (hname : name.length < n) :
    Stores (fun buf => generalizeModel sz buf n) n name
      ↔ name ≠ [] ∧ trimmed (ch '_') (squeezed false (sz.dropWhile (· = ch ' '))) = name := by
  by_cases hne : sz = []
  · subst hne
    refine iff_of_false (not_stores_nil fun buf => rfl) ?_
    rintro ⟨hname', heq⟩
    exact hname' heq.symm
  · have htext : modelText sz = sz := by
      rw [modelText, field, List.takeWhile_eq_self_iff]
      intro c hc
      have hcs : c ≠ ch ';' := fun h => hsemi (h ▸ hc)
      simp [hcs]
    have hlead : min n (leading sz) = leading sz :=
      Nat.min_eq_right ((leading_le sz).trans (Nat.le_of_lt hn))
    have hshort : (squeezed false (sz.drop (leading sz))).length ≤ n := by
      refine (squeezed_length_le _ _).trans ?_
      rw [List.length_drop]
      lia
    rw [stores_iff_trimmed (by lia) (List.length_take_le _ _)
      (fun buf hbuf => generalizeModel_eq hsz hne hbuf), htext, hlead,
      List.take_of_length_le hshort, drop_leading,
      List.take_of_length_le (Nat.le_sub_one_of_lt hname)]

theorem generalizeModel_idempotent {sz name : List UInt8} {n : Nat} (hsz : ∀ c ∈ sz, c ≠ 0)
    (hsemi : ch ';' ∉ sz) (hn : sz.length < n) (hname : name.length < n)
    (h : Stores (fun buf => generalizeModel sz buf n) n name) :
    Stores (fun buf => generalizeModel name buf n) n name := by
  obtain ⟨hne, htrim⟩ := (generalizeModel_stores_iff_trimmed hsz hsemi hn hname).mp h
  have hmem : ∀ c ∈ name, c = ch '_' ∨
      (c ∈ sz.dropWhile (· = ch ' ') ∧ isGap c = false) := fun c hc =>
    mem_squeezed (( trimmed_prefix _ _).subset (htrim ▸ hc))
  have hin : ∀ c ∈ name, c = ch '_' ∨ c ∈ sz := fun c hc =>
    (hmem c hc).imp_right fun h => (List.dropWhile_suffix _).subset h.1
  have hgap : ∀ c ∈ name, isGap c = false := by
    intro c hc
    rcases hmem c hc with rfl | h
    · decide
    · exact h.2
  have hzero : ∀ c ∈ name, c ≠ 0 := by
    intro c hc
    rcases hin c hc with rfl | h
    · decide
    · exact hsz c h
  have hsemi' : ch ';' ∉ name := by
    intro hc
    rcases hin _ hc with h | h
    · exact absurd h (by decide)
    · exact hsemi h
  refine (generalizeModel_stores_iff_trimmed hzero hsemi' hname hname).mpr ⟨hne, ?_⟩
  -- no blank is left to drop and no gap to squeeze
  have hdrop : name.dropWhile (· = ch ' ') = name := by
    cases hcase : name with
    | nil => rfl
    | cons a s =>
      have ha : a ≠ ch ' ' := fun h =>
        absurd (hgap a (hcase ▸ List.mem_cons_self)) (by rw [h]; decide)
      rw [List.dropWhile_cons_of_neg (by simpa using ha)]
  rw [hdrop, squeezed_eq_self hgap]
  exact (trimmed_eq_iff hne).mpr
    ⟨⟨0, by simp⟩, ((trimmed_eq_iff hne).mp htrim).2⟩

/-! ## The separators inside a name -/

theorem noDouble_cons {x : UInt8} (hx : x ≠ ch '_') {s : List UInt8} :
    NoDouble (x :: s) ↔ NoDouble s := by
  cases s with
  | nil => exact iff_of_true (.singleton x) .nil
  | cons b s =>
    rw [NoDouble, List.isChain_cons_cons, and_iff_right (fun h => hx h.1)]
    exact Iff.rfl

theorem not_noDouble (s : List UInt8) : ¬ NoDouble (ch '_' :: ch '_' :: s) := fun h =>
  (List.isChain_cons_cons.mp h).1 ⟨rfl, rfl⟩

theorem noDouble_line_cons {s : List UInt8} (hs : ∀ b t, s = b :: t → b ≠ ch '_') :
    NoDouble (ch '_' :: s) ↔ NoDouble s := by
  cases s with
  | nil => exact iff_of_true (.singleton _) .nil
  | cons b s =>
    rw [NoDouble, List.isChain_cons_cons, and_iff_right (fun h => hs b s rfl h.2)]
    exact Iff.rfl

theorem spread_begins {s : List UInt8} (hs : ∀ b t, s = b :: t → isSeparator b = false)
    (b : UInt8) (t : List UInt8) (h : spread s = b :: t) : b ≠ ch '_' := by
  cases s with
  | nil => cases h
  | cons a s =>
    have ha := hs a s rfl
    rw [spread_cons ha, List.cons.injEq] at h
    exact h.1 ▸ (isSeparator_eq_false.mp ha).2.2

theorem squeezed_true_eq {s : List UInt8} (hs : ∀ b t, s = b :: t → isSeparator b = false) :
    squeezed true s = squeezed false s := by
  cases s with
  | nil => rfl
  | cons a s =>
    have ha : ¬ isGap a = true := by simp [isGap_of_isSeparator (hs a s rfl)]
    rw [squeezed, squeezed, if_neg ha, if_neg ha]

theorem spaced_cons {x : UInt8} (hx : isSeparator x = false) (s : List UInt8) :
    Spaced (x :: s) ↔ Spaced s := by
  cases s with
  | nil => exact Iff.rfl
  | cons b s => rw [Spaced, and_iff_right (fun h => absurd h (by simp [hx]))]

theorem spaced_cons_of_begins (a : UInt8) {s : List UInt8}
    (hs : ∀ b t, s = b :: t → isSeparator b = false) : Spaced (a :: s) ↔ Spaced s := by
  cases s with
  | nil => exact Iff.rfl
  | cons b s => rw [Spaced, and_iff_right (fun _ h => absurd h (by simp [hs b s rfl]))]

theorem spaced_iff : ∀ s, Spaced s ↔ spread s = squeezed false s ∧ NoDouble (spread s)
  | [] => iff_of_true trivial ⟨rfl, .nil⟩
  | a :: s => by
    by_cases ha : isSeparator a = true
    · by_cases hs : ∀ b t, s = b :: t → isSeparator b = false
      · -- the separator stands alone
        obtain ⟨dd, hdd⟩ := squeezed_separator ha s
        have hdd' : squeezed dd s = squeezed false s := by
          cases dd with
          | true => exact squeezed_true_eq hs
          | false => rfl
        rw [spaced_cons_of_begins a hs, spread_single_separator ha hs, hdd, hdd',
          noDouble_line_cons (spread_begins hs), List.cons_inj_right]
        exact spaced_iff s
      · push Not at hs
        obtain ⟨b, t, rfl, hb⟩ := hs
        have hb : isSeparator b = true := by simpa using hb
        constructor
        · rintro ⟨hpair, hspaced⟩
          obtain ⟨rfl, rfl, hhead⟩ := hpair ha hb
          -- a third separator would be a third blank
          have ht : ∀ c u, t = c :: u → isSeparator c = false := by
            rintro c u rfl
            rw [← Bool.not_eq_true]
            intro hc
            exact hhead (by rw [List.head?_cons, (hspaced.1 hb hc).2.1])
          obtain ⟨heq, hnd⟩ := (spaced_iff t).mp ((spaced_cons_of_begins _ ht).mp hspaced)
          have hpair : squeezed false (ch ' ' :: ch ' ' :: t) = ch '_' :: squeezed true t := rfl
          rw [spread_pair (.inl rfl) (.inl rfl), hpair, squeezed_true_eq ht, heq]
          exact ⟨rfl, (noDouble_line_cons (heq ▸ spread_begins ht)).mpr (heq ▸ hnd)⟩
        · rintro ⟨heq, hnd⟩
          obtain ⟨u, hu⟩ := spread_separator hb t
          have hslash : a ≠ ch '/' := by
            rintro rfl
            rw [spread_slash, hu] at hnd
            exact not_noDouble u hnd
          have hline : isLine a := by
            rcases isSeparator_iff.mp ha with h | h | h
            · exact .inl h
            · exact absurd h hslash
            · exact .inr h
          have hline' : isLine b := by
            by_contra hb'
            rw [spread_single hline hb', hu] at hnd
            exact not_noDouble u hnd
          rw [spread_pair hline hline'] at heq hnd
          have hblank : a = ch ' ' := by
            refine hline.resolve_right ?_
            rintro rfl
            obtain ⟨dd, hdd⟩ := squeezed_separator hb t
            rw [heq, squeezed, if_neg (by decide), hdd] at hnd
            exact not_noDouble _ hnd
          have hblank' : b = ch ' ' := by
            refine hline'.resolve_right ?_
            rintro rfl
            rw [heq, hblank] at hnd
            exact not_noDouble _ hnd
          subst hblank hblank'
          -- what follows the pair begins with no separator
          have ht : ∀ c v, t = c :: v → isSeparator c = false := by
            rintro c v rfl
            rw [← Bool.not_eq_true]
            intro hc
            obtain ⟨w, hw⟩ := spread_separator hc v
            rw [hw] at hnd
            exact not_noDouble w hnd
          have hpair : squeezed false (ch ' ' :: ch ' ' :: t) = ch '_' :: squeezed true t := rfl
          rw [hpair, squeezed_true_eq ht, List.cons_inj_right] at heq
          have hspaced := (spaced_iff t).mpr
            ⟨heq, (noDouble_line_cons (spread_begins ht)).mp hnd⟩
          refine ⟨fun _ _ => ⟨rfl, rfl, fun hhead => ?_⟩, (spaced_cons_of_begins _ ht).mpr hspaced⟩
          obtain ⟨v, rfl⟩ := List.head?_eq_some_iff.mp hhead
          exact absurd (ht _ v rfl) (by decide)
    · have ha' : isSeparator a = false := by simpa using ha
      have hgap : ¬ isGap a = true := by simp [isGap_of_isSeparator ha']
      rw [spaced_cons ha', spread_cons ha', squeezed, if_neg hgap,
        noDouble_cons (isSeparator_eq_false.mp ha').2.2, List.cons_inj_right]
      exact spaced_iff s

/-! ## The ends of a name -/

theorem rdropWhile_append_all {p : UInt8 → Bool} {t : List UInt8} (ht : ∀ c ∈ t, p c = true)
    (s : List UInt8) : (s ++ t).rdropWhile p = s.rdropWhile p := by
  have hrev : ∀ c ∈ t.reverse, p c = true := fun c hc => ht c (List.mem_reverse.mp hc)
  rw [List.rdropWhile, List.reverse_append, List.dropWhile_append_of_pos hrev, List.rdropWhile]

theorem xstrip_begins {s t : List UInt8} {b c : UInt8} (h : xstrip s c = b :: t) : b ≠ c := by
  have hpre : b :: t <+: s.dropWhile (· = c) := h ▸ List.rdropWhile_prefix _ _
  obtain ⟨u, hu⟩ := hpre
  have hhead := List.head_dropWhile_not (fun d => decide (d = c)) (l := s)
    (by rw [← hu]; simp)
  simpa [← hu] using hhead

theorem xstrip_length_le (s : List UInt8) (c : UInt8) : (xstrip s c).length ≤ s.length :=
  (List.rdropWhile_prefix _ _).length_le.trans (List.dropWhile_suffix _).length_le

theorem normalizeModelName_length_le (sz : List UInt8) :
    (normalizeModelName sz).length ≤ sz.length := by
  refine (xstrip_length_le _ _).trans ?_
  rw [replaceChar, List.length_map]
  refine (List.length_filter_le _ _).trans ((replaceDouble_length_le _).trans ?_)
  rw [replaceChar, List.length_map]

theorem tilde_notMem (sz : List UInt8) : ch '~' ∉ normalizeModelName sz := by
  intro h
  have hmem := (List.dropWhile_suffix _).subset ((List.rdropWhile_prefix _ _).subset h)
  rcases mem_replaceChar hmem with h | ⟨h, -⟩
  · exact absurd h (by decide)
  · exact absurd (List.mem_filter.mp h).2 (by simp)

theorem normalizeModelName_eq {sz : List UInt8} (h : ch '~' ∉ sz) :
    normalizeModelName sz = xstrip (spread sz) (ch '_') := by
  have hfilter : (replaceDouble (replaceChar (ch ' ') (ch '_') sz)).filter (fun c => c ≠ ch '~')
      = replaceDouble (replaceChar (ch ' ') (ch '_') sz) := by
    refine List.filter_eq_self.mpr fun c hc => ?_
    refine decide_eq_true fun htilde => ?_
    rcases mem_replaceChar (replaceDouble_subset _ hc) with hline | ⟨hin, -⟩
    · exact absurd (htilde ▸ hline) (by decide)
    · exact h (htilde ▸ hin)
  rw [normalizeModelName, hfilter]
  rfl

theorem exists_last {x : UInt8} (hx : isSeparator x = false) (m : List UInt8) :
    ∃ w y t, x :: m = w ++ y :: t ∧ (x :: m).rdropWhile isSeparator = w ++ [y]
      ∧ isSeparator y = false ∧ (∀ c ∈ t, isSeparator c = true) ∧ ∃ v, w ++ [y] = x :: v := by
  have hne : (x :: m).rdropWhile isSeparator ≠ [] := by
    intro hnil
    have hall := List.rdropWhile_eq_nil_iff.mp hnil x List.mem_cons_self
    rw [hx] at hall
    exact Bool.false_ne_true hall
  have hsplit : (x :: m).rdropWhile isSeparator ++ (x :: m).rtakeWhile isSeparator = x :: m :=
    List.rdropWhile_append_rtakeWhile
  have hlast := List.rdropWhile_last_not isSeparator (x :: m) hne
  have hr := List.dropLast_append_getLast hne
  refine ⟨_, _, (x :: m).rtakeWhile isSeparator, ?_, hr.symm, by simpa using hlast,
    fun c hc => List.mem_rtakeWhile_imp hc, ?_⟩
  · rw [List.append_cons, hr, hsplit]
  · obtain ⟨b, v, hb⟩ := List.exists_cons_of_ne_nil hne
    rw [hr, hb]
    rw [hb, List.cons_append, List.cons.injEq] at hsplit
    exact ⟨v, by rw [hsplit.1]⟩

section Core

variable {sz m : List UInt8} {x : UInt8}

theorem normalizeModelName_nameText (htilde : ch '~' ∉ sz)
    (hm : sz.dropWhile (· = ch ' ') = x :: m) (hx : isSeparator x = false) :
    normalizeModelName sz = spread (nameText sz) := by
  obtain ⟨w, y, t, hsplit, hcore, hy, ht, v, hv⟩ := exists_last hx m
  have hlines : ∀ s, (∀ c ∈ s, isSeparator c = true) →
      ∀ c ∈ spread s, decide (c = ch '_') = true := by
    intro s hs c hc
    rcases mem_spread hc with h | ⟨h, hgap⟩
    · exact decide_eq_true h
    · rcases isSeparator_iff.mp (hs c h) with h | h | h
      · exact absurd (isGap_iff.mpr (.inl h)) (by simp [hgap])
      · exact absurd (isGap_iff.mpr (.inr h)) (by simp [hgap])
      · exact decide_eq_true h
  have hfront : ∀ c ∈ sz.takeWhile (· = ch ' '), isSeparator c = true := fun c hc =>
    isSeparator_iff.mpr (.inl (by simpa using List.mem_takeWhile_imp hc))
  have hsz : sz.takeWhile (· = ch ' ') ++ x :: m = sz := by
    rw [← hm, List.takeWhile_append_dropWhile]
  have hx' : ¬ decide (x = ch '_') = true := by simpa using (isSeparator_eq_false.mp hx).2.2
  have hy' : ¬ decide (y = ch '_') = true := by simpa using (isSeparator_eq_false.mp hy).2.2
  have hleft : (spread sz).dropWhile (· = ch '_') = spread (x :: m) := by
    rw [← hsz, spread_append hx, List.dropWhile_append_of_pos (hlines _ hfront),
      List.dropWhile_cons_of_neg (p := (· = ch '_')) hx', spread_cons hx]
  have hright : (spread (x :: m)).rdropWhile (· = ch '_') = spread (w ++ [y]) := by
    rw [hsplit, spread_append hy, List.append_cons, rdropWhile_append_all (hlines t ht),
      List.rdropWhile_concat_neg (· = ch '_') _ _ hy', spread_append hy]
    rfl
  rw [normalizeModelName_eq htilde, xstrip, hleft, hright, nameText, hm, hcore]

theorem trimmed_nameText (hm : sz.dropWhile (· = ch ' ') = x :: m)
    (hx : isSeparator x = false) :
    trimmed (ch '_') (squeezed false (sz.dropWhile (· = ch ' ')))
      = squeezed false (nameText sz) := by
  obtain ⟨w, y, t, hsplit, hcore, hy, ht, v, hv⟩ := exists_last hx m
  have hgap := isGap_of_isSeparator hy
  have hrep : squeezed false t = List.replicate (squeezed false t).length (ch '_') := by
    refine List.eq_replicate_iff.mpr ⟨rfl, fun c hc => ?_⟩
    rcases mem_squeezed hc with h | ⟨h, hng⟩
    · exact h
    · rcases isSeparator_iff.mp (ht c h) with h | h | h
      · exact absurd (isGap_iff.mpr (.inl h)) (by simp [hng])
      · exact absurd (isGap_iff.mpr (.inr h)) (by simp [hng])
      · exact h
  rw [nameText, hm, hcore, squeezed_append hgap, hsplit, squeezed_append hgap]
  refine (trimmed_eq_iff (by simp)).mpr ⟨⟨(squeezed false t).length, ?_⟩, .inr ?_⟩
  · rw [squeezed, ← hrep]
    simp
  · simpa [squeezed] using (isSeparator_eq_false.mp hy).2.2

theorem nameText_begins (hm : sz.dropWhile (· = ch ' ') = x :: m)
    (hx : isSeparator x = false) : ∃ v, nameText sz = x :: v := by
  obtain ⟨w, y, t, -, hcore, -, -, v, hv⟩ := exists_last hx m
  exact ⟨v, by rw [nameText, hm, hcore, hv]⟩

theorem spread_eq_replaceDouble {s : List UInt8} (hs : ∀ c ∈ s, isGap c = false) :
    spread s = replaceDouble s := by
  have hid : ∀ a t, (∀ c ∈ t, c ≠ a) → replaceChar a (ch '_') t = t := by
    intro a t ht
    refine (List.map_congr_left fun c hc => ?_).trans (List.map_id t)
    rw [if_neg (ht c hc)]
    rfl
  have hne : ∀ c ∈ s, c ≠ ch ' ' ∧ c ≠ ch '/' := by
    intro c hc
    have hgap := hs c hc
    simpa [isGap] using hgap
  rw [spread, hid _ s fun c hc => (hne c hc).1,
    hid _ _ fun c hc => (hne c (replaceDouble_subset _ hc)).2]

theorem normalizeModelName_again (htilde : ch '~' ∉ sz)
    (hm : sz.dropWhile (· = ch ' ') = x :: m) (hx : isSeparator x = false) :
    normalizeModelName (spread (nameText sz)) = spread (nameText sz)
      ↔ NoDouble (spread (nameText sz)) := by
  obtain ⟨w, y, t, -, hcore, hy, -, v, hv⟩ := exists_last hx m
  have htext : nameText sz = w ++ [y] := by rw [nameText, hm, hcore]
  have hfront : spread (nameText sz) = x :: spread v := by rw [htext, hv, spread_cons hx]
  have hback : spread (nameText sz) = spread w ++ [y] := by
    rw [htext, spread_append hy]
    rfl
  have hgap : ∀ c ∈ spread (nameText sz), isGap c = false := by
    intro c hc
    rcases mem_spread hc with rfl | h
    · decide
    · exact h.2
  have htilde' : ch '~' ∉ spread (nameText sz) := by
    intro hc
    rcases mem_spread hc with h | ⟨h, -⟩
    · exact absurd h (by decide)
    · exact htilde ((List.dropWhile_suffix _).subset ((List.rdropWhile_prefix _ _).subset h))
  -- the name has its own ends, so it is the text of itself
  have hm' : (spread (nameText sz)).dropWhile (· = ch ' ') = x :: spread v := by
    rw [hfront, List.dropWhile_cons_of_neg (by simpa using (isSeparator_eq_false.mp hx).1)]
  have hself : nameText (spread (nameText sz)) = spread (nameText sz) := by
    rw [nameText, hm', ← hfront, hback, List.rdropWhile_concat_neg _ _ _ (by simp [hy])]
  rw [normalizeModelName_nameText htilde' hm' hx, hself, spread_eq_replaceDouble hgap]
  exact replaceDouble_eq_iff _

end Core

/-! ## The two sides -/

theorem mem_squeezed_of_mem {c : UInt8} {s : List UInt8} (hc : c ∈ s) (hgap : isGap c = false)
    (dd : Bool) : c ∈ squeezed dd s := by
  obtain ⟨u, v, rfl⟩ := List.append_of_mem hc
  rw [squeezed_append hgap]
  simp

theorem begins_of_same {sz : List UInt8} (hne : normalizeModelName sz ≠ [])
    (htrim : trimmed (ch '_') (squeezed false (sz.dropWhile (· = ch ' ')))
      = normalizeModelName sz) :
    ch '~' ∉ sz ∧ ∃ x m, sz.dropWhile (· = ch ' ') = x :: m ∧ isSeparator x = false := by
  constructor
  · -- a tilde is no blank, is not squeezed and is not trimmed
    intro htilde
    rw [← List.takeWhile_append_dropWhile (p := (· = ch ' ')) (l := sz)] at htilde
    rcases List.mem_append.mp htilde with h | h
    · have hblank : ch '~' = ch ' ' := by simpa using List.mem_takeWhile_imp h
      exact absurd hblank (by decide)
    · have hin := mem_squeezed_of_mem h (by decide) false
      obtain ⟨k, hk⟩ := ((trimmed_eq_iff hne).mp htrim).1
      rw [hk] at hin
      rcases List.mem_append.mp hin with h | h
      · exact tilde_notMem sz h
      · exact absurd (List.eq_of_mem_replicate h) (by decide)
  · cases hd : sz.dropWhile (· = ch ' ') with
    | nil =>
      rw [hd] at htrim
      exact absurd htrim.symm hne
    | cons x m =>
      refine ⟨x, m, rfl, ?_⟩
      rw [← Bool.not_eq_true]
      intro hx
      obtain ⟨dd, hdd⟩ := squeezed_separator hx m
      rw [hd, hdd, trimmed] at htrim
      exact xstrip_begins htrim.symm rfl

theorem alike_iff_plainName (sz : CStr) (n : Nat) (hsemi : ch ';' ∉ sz.chars)
    (hn : sz.chars.length < n) : NamesAlike sz.chars n ↔ PlainName sz.chars := by
  have hlen : (normalizeModelName sz.chars).length < n :=
    (normalizeModelName_length_le _).trans_lt hn
  constructor
  · rintro ⟨hsame, hpython, -⟩
    obtain ⟨hne, htrim⟩ := (generalizeModel_stores_iff_trimmed sz.noNul hsemi hn hlen).mp hsame
    obtain ⟨htilde, x, m, hm, hx⟩ := begins_of_same hne htrim
    refine ⟨htilde, ⟨x, m, hm, hx⟩, (spaced_iff _).mpr ⟨?_, ?_⟩⟩
    · rw [← normalizeModelName_nameText htilde hm hx, ← trimmed_nameText hm hx, htrim]
    · rw [normalizeModelName_nameText htilde hm hx] at hpython
      exact (normalizeModelName_again htilde hm hx).mp hpython
  · rintro ⟨htilde, ⟨x, m, hm, hx⟩, hspaced⟩
    obtain ⟨heq, hnd⟩ := (spaced_iff _).mp hspaced
    refine ⟨?_, ?_, fun name hname => generalizeModel_idempotent sz.noNul hsemi hn hname⟩
    · refine (generalizeModel_stores_iff_trimmed sz.noNul hsemi hn hlen).mpr ⟨?_, ?_⟩
      · obtain ⟨v, hv⟩ := nameText_begins hm hx
        rw [normalizeModelName_nameText htilde hm hx, hv, spread_cons hx]
        exact List.cons_ne_nil _ _
      · rw [trimmed_nameText hm hx, normalizeModelName_nameText htilde hm hx, heq]
    · rw [normalizeModelName_nameText htilde hm hx]
      exact (normalizeModelName_again htilde hm hx).mpr hnd

/-- A pair of blanks between a name and its number. -/
theorem alike_pair_of_blanks :
    NamesAlike [ch 'H', ch 'P', ch ' ', ch ' ', ch '6'] 8 :=
  (alike_iff_plainName ⟨[ch 'H', ch 'P', ch ' ', ch ' ', ch '6'], by simp [ch]⟩ 8 (by decide)
    (by decide)).mpr
    { tilde := by decide
      begins := ⟨ch 'H', [ch 'P', ch ' ', ch ' ', ch '6'], by decide, by decide⟩
      spaced := by
        rw [show nameText [ch 'H', ch 'P', ch ' ', ch ' ', ch '6']
          = [ch 'H', ch 'P', ch ' ', ch ' ', ch '6'] by decide]
        simp [Spaced, ch, isSeparator, isGap] }

/-- Three blanks: two underscores on the Python side, one on the C side. -/
theorem not_alike_three_blanks :
    ¬ NamesAlike [ch 'H', ch 'P', ch ' ', ch ' ', ch ' ', ch '6'] 8 := by
  rintro ⟨hsame, -, -⟩
  obtain ⟨rest, hr, -⟩ := hsame (List.replicate 8 0) rfl
  have hc : (generalizeModel [ch 'H', ch 'P', ch ' ', ch ' ', ch ' ', ch '6']
      (List.replicate 8 0) 8).map Prod.fst = .ok 4 := by decide
  have hpython : normalizeModelName [ch 'H', ch 'P', ch ' ', ch ' ', ch ' ', ch '6']
      = [ch 'H', ch 'P', ch '_', ch '_', ch '6'] := by decide
  dsimp only at hr
  rw [hr, hpython] at hc
  have hlen : (5 : Nat) = 4 := Except.ok.inj hc
  exact absurd hlen (by decide)

end Hplip.Hpmud
