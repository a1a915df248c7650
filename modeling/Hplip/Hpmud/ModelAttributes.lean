import Mathlib
import Hplip.Lib.Checked
import Hplip.Lib.Loop
import Hplip.Lib.Strtol
import Hplip.Hpmud.DeviceId

/-!
# Key and value pairs (model.c)

The attributes of a model are lines of the form `key=value` in a buffer. `GetPair` copies the
two parts of the next line into arrays of `HPMUD_LINE_SIZE` cells and says how far it went;
`parse_key_value_pair` calls it until the buffer is used up.
-/

namespace Hplip.Hpmud

open CString Checked Loop

/-- `HPMUD_LINE_SIZE`. -/
abbrev lineSize : Nat := 256

/-- A `char` array of that size. -/
structure Line where
  cells : List UInt8
  size : cells.length = lineSize

/-- What `GetPair` returns and leaves in its two arrays; `*tail` is `buf + i`. -/
structure Pair where
  i : Nat
  key : List UInt8
  value : List UInt8
  deriving DecidableEq

def eatComment (p : List UInt8) : Except Fault Nat := do
  let c ← load p 0
  if c = ch '#' then
    let i ← scanWhile (fun c => c ≠ ch '\n') p
    let c ← load p i
    pure (if c = ch '\n' then i + 1 else i)
  else pure 0

/-- A part up to `stop`, without the white space at its end: how long it was, and the array. -/
def copyPart (stop : UInt8) (p part : List UInt8) : Except Fault (Nat × List UInt8) := do
  let (j, part) ← copyWhile (fun c => c = stop) lineSize p 0 part
  let (_, part) ← trimTerminate (ch ' ') (j, part)
  pure (j, part)

/-- The `=` and the white space after it. -/
def eatSeparator (p : List UInt8) : Except Fault Nat := do
  let c ← load p 0
  if c = ch '=' then
    let i ← scanWhile (fun c => c = ch ' ') (p.drop 1)
    pure (i + 1)
  else pure 0

def eatLineEnd (p : List UInt8) : Except Fault Nat := do
  let c ← load p 0
  pure (if c = ch '\n' then 1 else 0)

def getPair (buf key value : List UInt8) : Except Fault Pair := do
  let key ← store key 0 0
  let value ← store value 0 0
  let i ← eatComment buf
  let (j, key) ← copyPart (ch '=') (buf.drop i) key
  let i := i + j
  let j ← eatSeparator (buf.drop i)
  let i := i + j
  let (j, value) ← copyPart (ch '\n') (buf.drop i) value
  let i := i + j
  let j ← eatLineEnd (buf.drop i)
  pure ⟨i + j, key, value⟩

/-! ## The attributes -/

/-- `struct hpmud_model_attributes`, its `enum`s as words. -/
structure ModelAttributes where
  prtMode : UInt32
  mfpMode : UInt32
  scantype : UInt32
  statustype : UInt32
  support : UInt32
  plugin : UInt32
  scansrc : UInt32

def cstr (cells : List UInt8) : List UInt8 := cells.takeWhile (· ≠ 0)

/-- `strcasecmp(s, t) == 0` -/
def strcasecmp (s : List UInt8) (t : List Char) : Bool :=
  s.map tolower = (t.map ch).map tolower

/-- `HPMUD_RAW_MODE`, `HPMUD_DOT4_MODE` and so on; two fields have no default. -/
def ModelAttributes.defaults (ma : ModelAttributes) : ModelAttributes :=
  { ma with prtMode := 1, mfpMode := 3, scantype := 0, statustype := 2, support := 0 }

def ModelAttributes.assign (ma : ModelAttributes) (key value : List UInt8) : ModelAttributes :=
  let n := UInt32.ofInt (Strtol.strtol value).1
  if strcasecmp key ['i', 'o', '-', 'm', 'o', 'd', 'e'] then { ma with prtMode := n }
  else if strcasecmp key ['i', 'o', '-', 'm', 'f', 'p', '-', 'm', 'o', 'd', 'e'] then
    { ma with mfpMode := n }
  else if strcasecmp key ['s', 'c', 'a', 'n', '-', 't', 'y', 'p', 'e'] then
    { ma with scantype := n }
  else if strcasecmp key ['s', 'c', 'a', 'n', '-', 's', 'r', 'c'] then { ma with scansrc := n }
  else if strcasecmp key ['s', 't', 'a', 't', 'u', 's', '-', 't', 'y', 'p', 'e'] then
    { ma with statustype := n }
  else if strcasecmp key ['s', 'u', 'p', 'p', 'o', 'r', 't', '-', 't', 'y', 'p', 'e'] then
    { ma with support := n }
  else if strcasecmp key ['p', 'l', 'u', 'g', 'i', 'n'] then { ma with plugin := n }
  else ma

/-- The variables of `parse_key_value_pair`; `tail` is `buf + i`. -/
structure ParseState where
  i : Nat
  key : List UInt8
  value : List UInt8
  ma : ModelAttributes

/-- `while (i < len)` -/
def parseStep (buf : List UInt8) (s : ParseState) : ParseState ⊕ Except Fault ParseState :=
  if s.i < buf.length then
    match getPair (buf.drop s.i) s.key s.value with
    | .ok r => .inl ⟨s.i + r.i, r.key, r.value, s.ma.assign (cstr r.key) (cstr r.value)⟩
    | .error e => .inr (.error e)
  else .inr (.ok s)

/-- `parse_key_value_pair`, after its first assignments. -/
def parseStart (key value : Line) (ma : ModelAttributes) : ParseState :=
  ⟨0, key.cells, value.cells, ma.defaults⟩

/-! ## Entries -/

def IsComment (l r : List UInt8) : Prop :=
  l = [] ∧ r.head? ≠ some (ch '#') ∨ ∃ text, l = ch '#' :: text ++ [ch '\n'] ∧ ch '\n' ∉ text

/-- A part that is not empty and has room for a NUL, and what it ends at: its delimiter, or the
end of the array. -/
structure IsPart (stop : UInt8) (l r : List UInt8) : Prop where
  nonempty : l ≠ []
  stop_not_mem : stop ∉ l
  length_le : l.length ≤ lineSize
  fits : (trimmed (ch ' ') l).length < lineSize
  next : ∃ c t, r = c :: t ∧ (c = stop ∨ l.length = lineSize)

/-- The `=` and all blanks after it, or nothing where the key has used up its array. -/
def IsSeparator (l r : List UInt8) : Prop :=
  l = [] ∧ r.head? ≠ some (ch '=') ∨
    ∃ n, l = ch '=' :: List.replicate n (ch ' ') ∧ r.head? ≠ some (ch ' ')

def IsLineEnd (l r : List UInt8) : Prop :=
  l = [ch '\n'] ∨ l = [] ∧ r ≠ [] ∧ r.head? ≠ some (ch '\n')

/-- What `getPair` can go over. -/
structure Entry (buf : List UInt8) where
  comment : List UInt8
  key : List UInt8
  separator : List UInt8
  value : List UInt8
  lineEnd : List UInt8
  next : List UInt8
  buf_eq : buf = comment ++ (key ++ (separator ++ (value ++ (lineEnd ++ next))))
  isComment : IsComment comment (key ++ (separator ++ (value ++ (lineEnd ++ next))))
  isKey : IsPart (ch '=') key (separator ++ (value ++ (lineEnd ++ next)))
  isSeparator : IsSeparator separator (value ++ (lineEnd ++ next))
  isValue : IsPart (ch '\n') value (lineEnd ++ next)
  isLineEnd : IsLineEnd lineEnd next

abbrev Attribute := List UInt8 × List UInt8

/-- What `strcasecmp` and `strtol` see of an entry. -/
def Entry.attribute {buf : List UInt8} (e : Entry buf) : Attribute :=
  (cstr (trimmed (ch ' ') e.key), cstr (trimmed (ch ' ') e.value))

inductive Entries : List UInt8 → List Attribute → Prop
  | nil : Entries [] []
  | cons {buf : List UInt8} {as : List Attribute} (e : Entry buf) :
    Entries e.next as → Entries buf (e.attribute :: as)

/-- A call is safe and advances, whatever the arrays hold. -/
def Advances (buf : List UInt8) : Prop :=
  ∀ key value : Line, ∃ r, getPair buf key.cells value.cells = .ok r ∧ 1 ≤ r.i ∧
    r.i ≤ buf.length

/-- The loop is safe and comes to the end of the buffer. -/
def ParsesAll (buf : List UInt8) : Prop :=
  ∀ (key value : Line) (ma : ModelAttributes), ∃ n s,
    Loop.rounds (parseStep buf) n (parseStart key value ma) = .inr (.ok s) ∧ s.i = buf.length

/-- The loop ends with these attributes. -/
def ParsesTo (buf : List UInt8) (as : List Attribute) : Prop :=
  ∀ (key value : Line) (ma : ModelAttributes), ∃ n s,
    Loop.rounds (parseStep buf) n (parseStart key value ma) = .inr (.ok s) ∧
      s.ma = as.foldl (fun ma a => ma.assign a.1 a.2) ma.defaults

/-! ## The parts of a line -/

section Parts

variable {p : List UInt8} {j : Nat}

theorem load_zero {c : UInt8} : load p 0 = .ok c ↔ ∃ t, p = c :: t := by
  cases p with
  | nil => simp [load]
  | cons d p => simp [load]

theorem load_length (l : List UInt8) (c : UInt8) (r : List UInt8) :
    load (l ++ c :: r) l.length = .ok c := by
  rw [load_eq (by simp)]
  simp

theorem eatComment_eq_ok : eatComment p = .ok j ↔ ∃ l r, p = l ++ r ∧ p ≠ [] ∧ IsComment l r ∧
    j = l.length := by
  rw [eatComment, bind_eq_ok]
  constructor
  · rintro ⟨c, hload, h⟩
    obtain ⟨t, rfl⟩ := load_zero.mp hload
    by_cases hc : c = ch '#'
    · subst hc
      rw [if_pos rfl] at h
      obtain ⟨i, hscan, h⟩ := bind_eq_ok.mp h
      obtain ⟨l, d, r, hp, hl, hd, rfl⟩ := scanWhile_eq_ok.mp hscan
      have hd' : d = ch '\n' := by simpa using hd
      subst hd'
      rw [hp, load_length, ok_bind, if_pos rfl] at h
      cases h
      cases l with
      | nil => exact absurd (List.cons.inj hp).1 (by decide)
      | cons e l =>
        obtain ⟨rfl, rfl⟩ := List.cons.inj hp
        refine ⟨ch '#' :: l ++ [ch '\n'], r, by simp, List.cons_ne_nil _ _, .inr ⟨l, rfl, ?_⟩,
          by simp⟩
        intro hmem
        have := hl _ (List.mem_cons_of_mem _ hmem)
        simp at this
    · rw [if_neg hc] at h
      cases h
      exact ⟨[], c :: t, rfl, List.cons_ne_nil _ _, .inl ⟨rfl, by simpa using hc⟩, rfl⟩
  · rintro ⟨l, r, rfl, hne, hcomment, rfl⟩
    rcases hcomment with ⟨rfl, hr⟩ | ⟨text, rfl, htext⟩
    · obtain ⟨c, t, rfl⟩ := List.exists_cons_of_ne_nil hne
      refine ⟨c, load_zero.mpr ⟨t, rfl⟩, ?_⟩
      have hc : c ≠ ch '#' := by simpa using hr
      rw [if_neg hc]
      rfl
    · refine ⟨ch '#', load_zero.mpr ⟨text ++ [ch '\n'] ++ r, by simp⟩, ?_⟩
      have hscan : scanWhile (fun c => c ≠ ch '\n') (ch '#' :: text ++ [ch '\n'] ++ r)
          = .ok (text.length + 1) := by
        refine scanWhile_eq_ok.mpr ⟨ch '#' :: text, ch '\n', r, by simp, ?_, by simp, by simp⟩
        refine List.forall_mem_cons.mpr ⟨by decide, fun x hx => ?_⟩
        simpa using ne_of_mem_of_not_mem hx htext
      have hload : load (ch '#' :: text ++ [ch '\n'] ++ r) (text.length + 1) = .ok (ch '\n') := by
        simpa using load_length (ch '#' :: text) (ch '\n') r
      rw [if_pos rfl, hscan, ok_bind, hload, ok_bind, if_pos rfl]
      simp [pure, Except.pure]

theorem eatSeparator_eq_ok : eatSeparator p = .ok j ↔ ∃ l r, p = l ++ r ∧ r ≠ [] ∧
    IsSeparator l r ∧ j = l.length := by
  rw [eatSeparator, bind_eq_ok]
  constructor
  · rintro ⟨c, hload, h⟩
    obtain ⟨t, rfl⟩ := load_zero.mp hload
    by_cases hc : c = ch '='
    · subst hc
      rw [if_pos rfl] at h
      obtain ⟨i, hscan, h⟩ := bind_eq_ok.mp h
      cases h
      obtain ⟨l, d, r, hp, hl, hd, rfl⟩ := scanWhile_eq_ok.mp hscan
      have hblanks : l = List.replicate l.length (ch ' ') :=
        List.eq_replicate_iff.mpr ⟨rfl, fun x hx => by simpa using hl x hx⟩
      refine ⟨ch '=' :: l, d :: r, ?_, List.cons_ne_nil _ _, .inr ⟨l.length, ?_, ?_⟩, rfl⟩
      · rw [List.drop_one, List.tail_cons] at hp
        rw [hp, List.cons_append]
      · rw [← hblanks]
      · simpa using hd
    · rw [if_neg hc] at h
      cases h
      exact ⟨[], c :: t, rfl, List.cons_ne_nil _ _, .inl ⟨rfl, by simpa using hc⟩, rfl⟩
  · rintro ⟨l, r, rfl, hne, hseparator, rfl⟩
    obtain ⟨c, t, rfl⟩ := List.exists_cons_of_ne_nil hne
    rcases hseparator with ⟨rfl, hr⟩ | ⟨n, rfl, hr⟩
    · refine ⟨c, load_zero.mpr ⟨t, rfl⟩, ?_⟩
      have hc : c ≠ ch '=' := by simpa using hr
      rw [if_neg hc]
      rfl
    · refine ⟨ch '=', load_zero.mpr ⟨_, rfl⟩, ?_⟩
      have hscan : scanWhile (fun c => c = ch ' ') (List.replicate n (ch ' ') ++ c :: t)
          = .ok n := by
        refine scanWhile_eq_ok.mpr ⟨List.replicate n (ch ' '), c, t, rfl, fun x hx => ?_, ?_,
          List.length_replicate⟩
        · simpa using (List.mem_replicate.mp hx).2
        · simpa using hr
      rw [if_pos rfl]
      simp only [List.cons_append, List.drop_one, List.tail_cons]
      rw [hscan, ok_bind]
      simp [pure, Except.pure]

theorem eatLineEnd_eq_ok : eatLineEnd p = .ok j ↔ ∃ l r, p = l ++ r ∧ IsLineEnd l r ∧
    j = l.length := by
  rw [eatLineEnd, bind_eq_ok]
  constructor
  · rintro ⟨c, hload, h⟩
    obtain ⟨t, rfl⟩ := load_zero.mp hload
    cases h
    by_cases hc : c = ch '\n'
    · subst hc
      exact ⟨[ch '\n'], t, rfl, .inl rfl, rfl⟩
    · exact ⟨[], c :: t, rfl, .inr ⟨rfl, List.cons_ne_nil _ _, by simpa using hc⟩, if_neg hc⟩
  · rintro ⟨l, r, rfl, hline, rfl⟩
    rcases hline with rfl | ⟨rfl, hne, hr⟩
    · exact ⟨ch '\n', load_zero.mpr ⟨r, rfl⟩, rfl⟩
    · obtain ⟨c, t, rfl⟩ := List.exists_cons_of_ne_nil hne
      have hc : c ≠ ch '\n' := by simpa using hr
      exact ⟨c, load_zero.mpr ⟨t, rfl⟩, by rw [if_neg hc]; rfl⟩

def finish (l part : List UInt8) : List UInt8 :=
  (l ++ part.drop l.length).set (trimmed (ch ' ') l).length 0

theorem finish_length {l part : List UInt8} (hl : l.length ≤ part.length) :
    (finish l part).length = part.length := by
  rw [finish, List.length_set, List.length_append, List.length_drop]
  lia

theorem cstr_finish {l part : List UInt8} (hfits : (trimmed (ch ' ') l).length < part.length) :
    cstr (finish l part) = cstr (trimmed (ch ' ') l) := by
  obtain ⟨rest, hrest⟩ := trimmed_prefix (ch ' ') l
  have hcells : l ++ part.drop l.length = trimmed (ch ' ') l ++ (rest ++ part.drop l.length) := by
    rw [← List.append_assoc, hrest]
  have hlength := congrArg List.length hcells
  simp only [List.length_append, List.length_drop] at hlength
  have hne : rest ++ part.drop l.length ≠ [] := by
    intro hnil
    have hzero := congrArg List.length hnil
    simp only [List.length_append, List.length_drop, List.length_nil] at hzero
    lia
  obtain ⟨c, t, ht⟩ := List.exists_cons_of_ne_nil hne
  rw [finish, hcells, ht, List.set_append_right _ _ (Nat.le_refl _), Nat.sub_self,
    List.set_cons_zero, cstr, cstr]
  -- the NUL ends the string if nothing before it does
  induction trimmed (ch ' ') l with
  | nil => rfl
  | cons d m ih =>
    rw [List.cons_append, List.takeWhile_cons, List.takeWhile_cons, ih]

theorem trimTerminate_eq_ok {c : UInt8} {l rest b : List UInt8} {i : Nat} :
    trimTerminate c (l.length, l ++ rest) = .ok (i, b) ↔ l ≠ [] ∧
      (trimmed c l).length < (l ++ rest).length ∧ i = (trimmed c l).length ∧
      b = (l ++ rest).set (trimmed c l).length 0 := by
  by_cases hl : l = []
  · subst hl
    exact iff_of_false (by rintro ⟨⟩) fun h => h.1 rfl
  · obtain ⟨k, hk⟩ := Nat.exists_eq_succ_of_ne_zero fun h => hl (List.length_eq_zero_iff.mp h)
    have hback := trimBack_spec c l rest hl
    rw [hk, Nat.succ_sub_one] at hback
    have hpos := List.length_pos_iff.mpr (trimmed_ne_nil c hl)
    rw [hk, trimTerminate, hback]
    simp only
    rw [Nat.sub_add_cancel hpos, terminate]
    by_cases hfits : (trimmed c l).length < (l ++ rest).length
    · rw [store_eq 0 hfits]
      simp only [Except.ok.injEq, Prod.mk.injEq]
      exact ⟨fun h => ⟨hl, hfits, h.1.symm, h.2.symm⟩, fun h => ⟨h.2.2.1.symm, h.2.2.2.symm⟩⟩
    · rw [store_error 0 (Nat.not_lt.mp hfits)]
      exact iff_of_false (by rintro ⟨⟩) fun h => hfits h.2.1

theorem copyPart_eq_ok {stop : UInt8} {part b : List UInt8} (hpart : part.length = lineSize) :
    copyPart stop p part = .ok (j, b) ↔ ∃ l r, p = l ++ r ∧ IsPart stop l r ∧ j = l.length ∧
      b = finish l part := by
  have hcopy := fun {j b} => @copyWhile_eq_ok (fun c => decide (c = stop)) lineSize j p [] part b
    (by simpa using hpart)
  simp only [List.length_nil, List.nil_append] at hcopy
  rw [copyPart, bind_eq_ok]
  constructor
  · rintro ⟨⟨i, m⟩, hm, h⟩
    obtain ⟨l, c, r, rfl, hl, hstop, hle, rfl, rfl⟩ := hcopy.mp hm
    obtain ⟨⟨i, m⟩, htrim, h⟩ := bind_eq_ok.mp h
    obtain ⟨hne, hfits, rfl, rfl⟩ := trimTerminate_eq_ok.mp htrim
    cases h
    rw [List.length_append, List.length_drop] at hfits
    refine ⟨l, c :: r, rfl, ⟨hne, ?_, by lia, by lia, c, r, rfl, ?_⟩, rfl, rfl⟩
    · intro hmem
      simpa using hl stop hmem
    · rw [← hpart]
      simpa using hstop
  · rintro ⟨l, r, rfl, hl, rfl, rfl⟩
    obtain ⟨c, t, rfl, hstop⟩ := hl.next
    have hle := hl.length_le
    have hfits := hl.fits
    refine ⟨(l.length, l ++ part.drop l.length), hcopy.mpr ⟨l, c, t, rfl, fun x hx => ?_, ?_,
      by lia, rfl, rfl⟩, ?_⟩
    · simpa using ne_of_mem_of_not_mem hx hl.stop_not_mem
    · rw [hpart]
      simpa using hstop
    · refine bind_eq_ok.mpr ⟨_, trimTerminate_eq_ok.mpr ⟨hl.nonempty, ?_, rfl, rfl⟩, rfl⟩
      rw [List.length_append, List.length_drop]
      lia

end Parts

/-! ## One call -/

section Call

variable {buf key value : List UInt8}

def Entry.length (e : Entry buf) : Nat :=
  e.comment.length + e.key.length + e.separator.length + e.value.length + e.lineEnd.length

/-- What `getPair` answers on an entry. -/
def Entry.pair (e : Entry buf) (key value : List UInt8) : Pair where
  i := e.length
  key := finish e.key (key.set 0 0)
  value := finish e.value (value.set 0 0)

theorem getPair_eq_ok (hkey : key.length = lineSize) (hvalue : value.length = lineSize)
    {r : Pair} : getPair buf key value = .ok r ↔ ∃ e : Entry buf, r = e.pair key value := by
  have hkey' : (key.set 0 0).length = lineSize := (List.length_set ..).trans hkey
  have hvalue' : (value.set 0 0).length = lineSize := (List.length_set ..).trans hvalue
  have hcell : 0 < key.length := hkey ▸ Nat.zero_lt_succ _
  have hcell' : 0 < value.length := hvalue ▸ Nat.zero_lt_succ _
  rw [getPair, store_eq 0 hcell, ok_bind, store_eq 0 hcell', ok_bind, bind_eq_ok]
  constructor
  · rintro ⟨i, hcomment, h⟩
    obtain ⟨comment, p, rfl, -, isComment, rfl⟩ := eatComment_eq_ok.mp hcomment
    obtain ⟨⟨i, key₁⟩, hcopy, h⟩ := bind_eq_ok.mp h
    rw [List.drop_left] at hcopy
    obtain ⟨k, p, rfl, isKey, rfl, rfl⟩ := (copyPart_eq_ok hkey').mp hcopy
    obtain ⟨i, hseparator, h⟩ := bind_eq_ok.mp h
    rw [← List.drop_drop, List.drop_left, List.drop_left] at hseparator
    obtain ⟨separator, p, rfl, -, isSeparator, rfl⟩ := eatSeparator_eq_ok.mp hseparator
    obtain ⟨⟨i, value₁⟩, hcopy, h⟩ := bind_eq_ok.mp h
    rw [← List.drop_drop, ← List.drop_drop, List.drop_left, List.drop_left, List.drop_left]
      at hcopy
    obtain ⟨v, p, rfl, isValue, rfl, rfl⟩ := (copyPart_eq_ok hvalue').mp hcopy
    obtain ⟨i, hline, h⟩ := bind_eq_ok.mp h
    rw [← List.drop_drop, ← List.drop_drop, ← List.drop_drop, List.drop_left, List.drop_left,
      List.drop_left, List.drop_left] at hline
    obtain ⟨lineEnd, next, rfl, isLineEnd, rfl⟩ := eatLineEnd_eq_ok.mp hline
    cases h
    exact ⟨⟨comment, k, separator, v, lineEnd, next, rfl, isComment, isKey, isSeparator, isValue,
      isLineEnd⟩, rfl⟩
  · rintro ⟨⟨comment, k, separator, v, lineEnd, next, rfl, isComment, isKey, isSeparator, isValue,
      isLineEnd⟩, rfl⟩
    have hne : v ++ (lineEnd ++ next) ≠ [] := fun h =>
      isValue.nonempty (List.append_eq_nil_iff.mp h).1
    refine ⟨_, eatComment_eq_ok.mpr ⟨comment, _, rfl, ?_, isComment, rfl⟩, ?_⟩
    · intro h
      exact isKey.nonempty (List.append_eq_nil_iff.mp (List.append_eq_nil_iff.mp h).2).1
    refine bind_eq_ok.mpr ⟨_, (copyPart_eq_ok hkey').mpr ⟨k, _, List.drop_left, isKey, rfl, rfl⟩, ?_⟩
    refine bind_eq_ok.mpr ⟨_, eatSeparator_eq_ok.mpr ⟨separator, _, ?_, hne, isSeparator, rfl⟩, ?_⟩
    · rw [← List.drop_drop, List.drop_left, List.drop_left]
    refine bind_eq_ok.mpr ⟨_, (copyPart_eq_ok hvalue').mpr ⟨v, _, ?_, isValue, rfl, rfl⟩, ?_⟩
    · rw [← List.drop_drop, ← List.drop_drop, List.drop_left, List.drop_left, List.drop_left]
    refine bind_eq_ok.mpr ⟨_, eatLineEnd_eq_ok.mpr ⟨lineEnd, _, ?_, isLineEnd, rfl⟩, rfl⟩
    rw [← List.drop_drop, ← List.drop_drop, ← List.drop_drop, List.drop_left, List.drop_left,
      List.drop_left, List.drop_left]

theorem Entry.drop_length (e : Entry buf) : buf.drop e.length = e.next := by
  obtain ⟨comment, k, separator, v, lineEnd, next, rfl, -, -, -, -, -⟩ := e
  rw [Entry.length, ← List.drop_drop, ← List.drop_drop, ← List.drop_drop, ← List.drop_drop,
    List.drop_left, List.drop_left, List.drop_left, List.drop_left, List.drop_left]

theorem Entry.length_pos (e : Entry buf) : 1 ≤ e.length := by
  have hkey := List.length_pos_iff.mpr e.isKey.nonempty
  rw [Entry.length]
  lia

theorem Entry.length_le (e : Entry buf) : e.length ≤ buf.length := by
  have hlength := congrArg List.length e.buf_eq
  simp only [List.length_append] at hlength
  rw [Entry.length]
  lia

theorem advances_iff : Advances buf ↔ Nonempty (Entry buf) := by
  constructor
  · intro h
    let line : Line := ⟨List.replicate lineSize 0, List.length_replicate⟩
    obtain ⟨r, hr, -⟩ := h line line
    obtain ⟨e, -⟩ := (getPair_eq_ok line.size line.size).mp hr
    exact ⟨e⟩
  · rintro ⟨e⟩ key value
    exact ⟨_, (getPair_eq_ok key.size value.size).mpr ⟨e, rfl⟩, e.length_pos, e.length_le⟩

theorem Entry.pair_size (e : Entry buf) (hkey : key.length = lineSize)
    (hvalue : value.length = lineSize) :
    (e.pair key value).key.length = lineSize ∧ (e.pair key value).value.length = lineSize := by
  have hkey' : (key.set 0 0).length = lineSize := (List.length_set ..).trans hkey
  have hvalue' : (value.set 0 0).length = lineSize := (List.length_set ..).trans hvalue
  exact ⟨(finish_length (hkey'.symm ▸ e.isKey.length_le)).trans hkey',
    (finish_length (hvalue'.symm ▸ e.isValue.length_le)).trans hvalue'⟩

theorem Entry.assign_pair (e : Entry buf) (hkey : key.length = lineSize)
    (hvalue : value.length = lineSize) (ma : ModelAttributes) :
    ma.assign (cstr (e.pair key value).key) (cstr (e.pair key value).value)
      = ma.assign e.attribute.1 e.attribute.2 := by
  have hkey' : (key.set 0 0).length = lineSize := (List.length_set ..).trans hkey
  have hvalue' : (value.set 0 0).length = lineSize := (List.length_set ..).trans hvalue
  rw [Entry.pair, cstr_finish (hkey'.symm ▸ e.isKey.fits),
    cstr_finish (hvalue'.symm ▸ e.isValue.fits)]
  rfl

end Call

/-! ## The loop -/

section Parse

variable {buf : List UInt8}

theorem entries_of_rounds (n : Nat) {s s' : ParseState} (hkey : s.key.length = lineSize)
    (hvalue : s.value.length = lineSize) (h : Loop.rounds (parseStep buf) n s = .inr (.ok s')) :
    ∃ as, Entries (buf.drop s.i) as := by
  induction n generalizing s with
  | zero => cases h
  | succ n ih =>
    rw [Loop.rounds, parseStep] at h
    by_cases hi : s.i < buf.length
    · rw [if_pos hi] at h
      cases hpair : getPair (buf.drop s.i) s.key s.value with
      | error e =>
        rw [hpair] at h
        cases h
      | ok r =>
        rw [hpair] at h
        obtain ⟨e, rfl⟩ := (getPair_eq_ok hkey hvalue).mp hpair
        obtain ⟨hkey', hvalue'⟩ := e.pair_size hkey hvalue
        obtain ⟨as, has⟩ := ih hkey' hvalue' h
        have hnext : buf.drop (s.i + e.length) = e.next := by
          rw [← List.drop_drop, e.drop_length]
        have hrest : Entries e.next as := hnext ▸ has
        exact ⟨_, .cons e hrest⟩
    · rw [List.drop_of_length_le (Nat.not_lt.mp hi)]
      exact ⟨[], .nil⟩

theorem rounds_of_entries {p : List UInt8} {as : List Attribute} (h : Entries p as)
    {s : ParseState} (hp : buf.drop s.i = p) (hi : s.i ≤ buf.length)
    (hkey : s.key.length = lineSize) (hvalue : s.value.length = lineSize) :
    ∃ n s', Loop.rounds (parseStep buf) n s = .inr (.ok s') ∧ s'.i = buf.length ∧
      s'.ma = as.foldl (fun ma a => ma.assign a.1 a.2) s.ma := by
  induction h generalizing s with
  | nil =>
    have hend : ¬ s.i < buf.length := Nat.not_lt.mpr (List.drop_eq_nil_iff.mp hp)
    refine ⟨1, s, ?_, by lia, rfl⟩
    rw [Loop.rounds, parseStep, if_neg hend]
  | @cons p as e _ ih =>
    have hlength := e.length_le
    have hpos := e.length_pos
    have hrest : p.length = buf.length - s.i := by rw [← hp, List.length_drop]
    have hgo : s.i < buf.length := by lia
    have hpair : getPair (buf.drop s.i) s.key s.value = .ok (e.pair s.key s.value) := by
      rw [hp]
      exact (getPair_eq_ok hkey hvalue).mpr ⟨e, rfl⟩
    have hnext : buf.drop (s.i + e.length) = e.next := by
      rw [← List.drop_drop, hp, e.drop_length]
    obtain ⟨hkey', hvalue'⟩ := e.pair_size hkey hvalue
    obtain ⟨n, s', hrounds, hi', hma⟩ := ih (s := ⟨s.i + e.length, (e.pair s.key s.value).key,
      (e.pair s.key s.value).value, s.ma.assign (cstr (e.pair s.key s.value).key)
        (cstr (e.pair s.key s.value).value)⟩) hnext (by dsimp only; lia) hkey' hvalue'
    refine ⟨n + 1, s', ?_, hi', ?_⟩
    · rw [Loop.rounds, parseStep, if_pos hgo, hpair]
      exact hrounds
    · rw [hma, e.assign_pair hkey hvalue]
      rfl

/-- A call is safe and advances exactly on the entries, and the loop exactly on sequences of
them, of which it has seen every one. -/
theorem getPair_safe_iff (buf : List UInt8) :
    (Advances buf ↔ Nonempty (Entry buf)) ∧ (ParsesAll buf ↔ ∃ as, Entries buf as) ∧
      ∀ as, Entries buf as → ParsesTo buf as := by
  refine ⟨advances_iff, ⟨fun h => ?_, ?_⟩, fun as has key value ma => ?_⟩
  · let line : Line := ⟨List.replicate lineSize 0, List.length_replicate⟩
    obtain ⟨n, s, hrounds, -⟩ := h line line ⟨0, 0, 0, 0, 0, 0, 0⟩
    exact entries_of_rounds n line.size line.size hrounds
  · rintro ⟨as, has⟩ key value ma
    obtain ⟨n, s, hrounds, hi, -⟩ := rounds_of_entries has (s := parseStart key value ma) rfl
      (Nat.zero_le _) key.size value.size
    exact ⟨n, s, hrounds, hi⟩
  · obtain ⟨n, s, hrounds, -, hma⟩ := rounds_of_entries has (s := parseStart key value ma) rfl
      (Nat.zero_le _) key.size value.size
    exact ⟨n, s, hrounds, hma⟩

/-- `r816-agent1-sku=`, a line of `models.dat`: of the empty value the cell before the array is
looked at. -/
theorem empty_value_unsafe : ¬ Advances (['a', 'g', 'e', 'n', 't', '=', '\n'].map ch) := by
  intro h
  let line : Line := ⟨List.replicate lineSize 0, List.length_replicate⟩
  obtain ⟨r, hr, -⟩ := h line line
  have hfault : getPair (['a', 'g', 'e', 'n', 't', '=', '\n'].map ch) line.cells line.cells
      = .error .load := by decide +kernel
  rw [hfault] at hr
  cases hr

end Parse

end Hplip.Hpmud
