import Hplip.Base.ParseDeviceUri
import Mathlib.Data.List.AList
import Mathlib.Data.List.DropRight

/-!
# Device ids (device.py)

A device says what it is in a text of fields, each with a `;` at its end and most with a key and
a value on the two sides of a `:`. The fields make a dictionary, where other names of the model and
of the serial number are replaced by the usual ones.

A dict is an association list; `None` is `none`. An exception is `none` as well.
-/

namespace Hplip.Base

/-! ## The code -/

/-- `str.strip`. -/
def strip (s : List Char) : List Char := (s.rdropWhile isSpace).dropWhile isSpace

/-- A dict of texts, some of them `None`. -/
abbrev Dict : Type := AList fun _ : List Char => Option (List Char)

/-- `dict.setdefault`. -/
def setdefault (d : Dict) (n : List Char) (v : Option (List Char)) : Dict :=
  if n ∈ d then d else d.insert n v

def mdlName : List Char := ['M', 'D', 'L']

def snName : List Char := ['S', 'N']

def modelName : List Char := ['M', 'O', 'D', 'E', 'L']

def serialName : List Char := ['S', 'E', 'R', 'I', 'A', 'L']

def sernName : List Char := ['S', 'E', 'R', 'N']

def fieldTexts (deviceId : List Char) : List (List Char) :=
  (((strip deviceId).splitOn ';').filter (· ≠ [])).map strip

/-- The key and the value of a text; `None` if there is no `:`. -/
def entry (z : List Char) : List Char × Option (List Char) :=
  (strip ((z.splitOn ':').headD []), (z.splitOn ':')[1]?)

/-- If it is there, `a` becomes `b`. -/
def move (d : Dict) (a b : List Char) : Dict :=
  match d.lookup a with
  | some v => (d.insert b v).erase a
  | none => d

def fieldDict (deviceId : List Char) : Dict :=
  ((fieldTexts deviceId).map entry).foldl (fun d e => setdefault d e.1 e.2) ∅

/-- The dictionary with the usual names, before the serial number is looked at. -/
def renamed (d : Dict) : Dict :=
  let d := setdefault (setdefault d mdlName (some [])) snName (some [])
  let d := move d modelName mdlName
  if serialName ∈ d then move d serialName snName else move d sernName snName

def parseDeviceID (deviceId : List Char) : Option Dict :=
  let d := renamed (fieldDict deviceId)
  match d.lookup snName with
  | some (some v) => some (if v.head? = some 'X' then d.insert snName (some []) else d)
  -- `None` has no `startswith`
  | _ => none

/-! ## Fields -/

inductive IdField where
  | pair (key value : List Char)
  | bare (s : List Char)

namespace IdField

def text : IdField → List Char
  | pair key value => key ++ ':' :: value
  | bare s => s

def name : IdField → List Char
  | pair key _ => strip key
  | bare s => strip s

def value : IdField → List Char
  | pair _ value => value
  | bare _ => []

def isPair : IdField → Bool
  | pair _ _ => true
  | bare _ => false

def Sound : IdField → Prop
  | pair key value => strip key ≠ [] ∧ ':' ∉ key ∧ ';' ∉ key ∧ ';' ∉ value
  | bare s => ':' ∉ s ∧ ';' ∉ s

end IdField

structure DeviceId where
  fields : List IdField
  sound : ∀ f ∈ fields, f.Sound

def textOf (fs : List IdField) : List Char := fs.flatMap fun f => f.text ++ [';']

/-- The first field of the first name of `ns` that there is. -/
def chosen (ns : List (List Char)) (fs : List IdField) : Option IdField :=
  ns.findSome? fun n => fs.find? fun f => f.name = n

/-- The names under which a value of the dictionary may be given, the best one first. -/
def sources (n : List Char) : List (List Char) :=
  if n = mdlName then [modelName, mdlName]
  else if n = snName then [serialName, sernName, snName]
  else [n]

/-- A serial number that begins with an `X` is none. -/
def blankX (v : List Char) : List Char := if v.head? = some 'X' then [] else v

namespace DeviceId

variable (i : DeviceId)

def pairs : List IdField := i.fields.filter IdField.isPair

def Moved (n : List Char) : Prop :=
  n = modelName ∨ n = serialName ∨ n = sernName ∧ chosen [serialName] i.pairs = none

def wanted (n : List Char) (f : IdField) : List Char :=
  if n = snName then blankX (strip f.value) else strip f.value

/-- The dictionary has the value of every field that has one, with the other names replaced. -/
def ParsesBack : Prop :=
  ∃ d, parseDeviceID (textOf i.fields) = some d ∧
    (∀ n, ¬ i.Moved n → ∀ f, chosen (sources n) i.pairs = some f →
      d.lookup n = some (some (wanted n f))) ∧
    ∀ n, i.Moved n → d.lookup n = none

end DeviceId

/-- A value that is taken as it is: no `:`, and no blank before it. -/
def Clean (v : List Char) : Prop :=
  ':' ∉ v ∧ ∀ c ∈ (v.rdropWhile isSpace).head?, isSpace c = false

/-- The serial number is not a field without a value, and wherever a field with a value is meant
it is the one that is chosen, and its value is taken as it is (or blanked anyway). -/
def DeviceId.Readable (i : DeviceId) : Prop :=
  (∀ f, chosen (sources snName) i.fields = some f → f.isPair = true) ∧
    ∀ n, ¬ i.Moved n → ∀ f, chosen (sources n) i.pairs = some f →
      chosen (sources n) i.fields = some f ∧
        (Clean f.value ∨ n = snName ∧ f.value.head? = some 'X')

/-! ## Blanks -/

theorem dropWhile_append_stop {α : Type} {p : α → Bool} {c : α} (hc : p c = false)
    (xs ys : List α) : (xs ++ c :: ys).dropWhile p = xs.dropWhile p ++ c :: ys := by
  induction xs with
  | nil => simp [hc]
  | cons x xs ih => by_cases hx : p x = true <;> simp [hx, ih]

theorem rdropWhile_append_stop {α : Type} {p : α → Bool} {c : α} (hc : p c = false)
    (xs ys : List α) : (xs ++ c :: ys).rdropWhile p = xs ++ c :: ys.rdropWhile p := by
  have hrev : (xs ++ c :: ys).reverse = ys.reverse ++ c :: xs.reverse := by simp
  rw [List.rdropWhile, hrev, dropWhile_append_stop hc, List.rdropWhile]
  simp

theorem dropWhile_cases {α : Type} (p : α → Bool) (s : List α) :
    (∀ x ∈ s, p x = true) ∨
      ∃ a x w, s = a ++ x :: w ∧ (∀ y ∈ a, p y = true) ∧ p x = false := by
  induction s with
  | nil => exact .inl fun x hx => nomatch hx
  | cons x s ih =>
    by_cases hx : p x = true
    · rcases ih with hall | ⟨a, y, w, rfl, ha, hy⟩
      · exact .inl (List.forall_mem_cons.mpr ⟨hx, hall⟩)
      · exact .inr ⟨x :: a, y, w, rfl, List.forall_mem_cons.mpr ⟨hx, ha⟩, hy⟩
    · exact .inr ⟨[], x, s, rfl, fun y hy => (nomatch hy), Bool.eq_false_iff.mpr hx⟩

theorem strip_eq_nil {s : List Char} (h : ∀ x ∈ s, isSpace x = true) : strip s = [] := by
  rw [strip, List.rdropWhile_eq_nil_iff.mpr h]
  rfl

theorem strip_append {a w : List Char} {x : Char} (ha : ∀ y ∈ a, isSpace y = true)
    (hx : isSpace x = false) : strip (a ++ x :: w) = x :: w.rdropWhile isSpace := by
  rw [strip, rdropWhile_append_stop hx, dropWhile_append_stop hx, List.dropWhile_eq_nil_iff.mpr ha,
    List.nil_append]

theorem strip_dropWhile (s : List Char) : strip (s.dropWhile isSpace) = strip s := by
  rcases dropWhile_cases isSpace s with hall | ⟨a, x, w, rfl, ha, hx⟩
  · rw [List.dropWhile_eq_nil_iff.mpr hall, strip_eq_nil hall]
    rfl
  · rw [dropWhile_append_stop hx, List.dropWhile_eq_nil_iff.mpr ha, strip_append ha hx]
    exact strip_append (fun y hy => nomatch hy) hx

theorem strip_strip (s : List Char) : strip (strip s) = strip s := by
  rcases dropWhile_cases isSpace s with hall | ⟨a, x, w, rfl, ha, hx⟩
  · rw [strip_eq_nil hall]
    rfl
  · have hagain := strip_append (a := []) (w := w.rdropWhile isSpace) (fun y hy => nomatch hy) hx
    rw [List.nil_append, List.rdropWhile_idempotent] at hagain
    rw [strip_append ha hx, hagain]

theorem mem_of_mem_strip {s : List Char} {c : Char} (h : c ∈ strip s) : c ∈ s :=
  (List.rdropWhile_prefix _ _).subset ((List.dropWhile_suffix _).subset h)

/-! ## The dictionary -/

section Dictionary

variable {d : Dict} {n m : List Char}

theorem lookup_setdefault (v : Option (List Char)) :
    (setdefault d n v).lookup m = (d.lookup m).or (if m = n then some v else none) := by
  rw [setdefault]
  by_cases hn : n ∈ d
  · rw [if_pos hn]
    by_cases hm : m = n
    · subst hm
      obtain ⟨u, hu⟩ := Option.isSome_iff_exists.mp (AList.lookup_isSome.mpr hn)
      rw [hu, Option.some_or]
    · rw [if_neg hm, Option.or_none]
  · rw [if_neg hn]
    by_cases hm : m = n
    · subst hm
      rw [AList.lookup_insert, AList.lookup_eq_none.mpr hn, if_pos rfl, Option.none_or]
    · rw [AList.lookup_insert_ne hm, if_neg hm, Option.or_none]

theorem lookup_foldl_setdefault (es : List (List Char × Option (List Char))) :
    (es.foldl (fun d e => setdefault d e.1 e.2) d).lookup m
      = (d.lookup m).or ((es.find? fun e => e.1 = m).map Prod.snd) := by
  induction es generalizing d with
  | nil => simp
  | cons e es ih =>
    rw [List.foldl_cons, ih, lookup_setdefault, Option.or_assoc, List.find?_cons]
    by_cases hm : e.1 = m
    · subst hm
      simp
    · simp [hm, Ne.symm hm]

theorem lookup_move (k : List Char) :
    (move d n m).lookup k = if k = n then none
      else if k = m then (d.lookup n).or (d.lookup m) else d.lookup k := by
  rw [move]
  cases hn : d.lookup n with
  | none =>
    by_cases hk : k = n
    · rw [if_pos hk, hk]
      exact hn
    · rw [if_neg hk]
      by_cases hkm : k = m
      · rw [if_pos hkm, Option.none_or, hkm]
      · rw [if_neg hkm]
  | some v =>
    by_cases hk : k = n
    · rw [if_pos hk, hk]
      exact AList.lookup_erase _ _
    · rw [if_neg hk]
      dsimp only
      rw [AList.lookup_erase_ne hk]
      by_cases hkm : k = m
      · rw [hkm, AList.lookup_insert]
        simp
      · rw [AList.lookup_insert_ne hkm, if_neg hkm]

end Dictionary

/-- What is taken for the serial number, from the dictionary of the fields. -/
def serialOf (l : List Char → Option (Option (List Char))) : Option (List Char) :=
  ((l serialName).or ((l sernName).or (l snName))).getD (some [])

def finalOf (l : List Char → Option (Option (List Char))) (n : List Char) :
    Option (Option (List Char)) :=
  if n = modelName ∨ n = serialName then none
  else if n = sernName then if (l serialName).isSome then l sernName else none
  else if n = mdlName then some (((l modelName).or (l mdlName)).getD (some []))
  else if n = snName then some ((serialOf l).map blankX)
  else l n

def withModel (d : Dict) : Dict :=
  move (setdefault (setdefault d mdlName (some [])) snName (some [])) modelName mdlName

theorem lookup_withModel (d : Dict) (k : List Char) :
    (withModel d).lookup k = if k = modelName then none
      else if k = mdlName then some (((d.lookup modelName).or (d.lookup mdlName)).getD (some []))
      else if k = snName then some ((d.lookup snName).getD (some []))
      else d.lookup k := by
  rw [withModel, lookup_move]
  simp only [lookup_setdefault]
  by_cases hmdl : k = mdlName
  · subst hmdl
    cases d.lookup modelName <;> cases d.lookup mdlName <;> simp +decide
  · by_cases hsn : k = snName
    · subst hsn
      cases d.lookup snName <;> simp +decide
    · simp [hmdl, hsn]

theorem name_cases {P : List Char → Prop} (serial : P serialName) (sn : P snName)
    (model : P modelName) (sern : P sernName)
    (other : ∀ n, n ≠ serialName → n ≠ snName → n ≠ modelName → n ≠ sernName → P n)
    (n : List Char) : P n := by
  by_cases h₁ : n = serialName
  · exact h₁ ▸ serial
  · by_cases h₂ : n = snName
    · exact h₂ ▸ sn
    · by_cases h₃ : n = modelName
      · exact h₃ ▸ model
      · by_cases h₄ : n = sernName
        · exact h₄ ▸ sern
        · exact other n h₁ h₂ h₃ h₄

theorem lookup_renamed (d : Dict) (n : List Char) :
    (renamed d).lookup n = if n = snName then some (serialOf d.lookup) else finalOf d.lookup n := by
  have hserial : serialName ∈ withModel d ↔ (d.lookup serialName).isSome := by
    rw [← AList.lookup_isSome, lookup_withModel]
    simp +decide
  have hrenamed : renamed d = if serialName ∈ withModel d then move (withModel d) serialName snName
      else move (withModel d) sernName snName := rfl
  rw [hrenamed]
  cases hv : d.lookup serialName with
  | some v =>
    rw [if_pos (hserial.mpr (by rw [hv]; rfl))]
    induction n using name_cases with
    | serial => simp +decide [lookup_move, finalOf]
    | sn => simp +decide [lookup_move, lookup_withModel, serialOf, hv]
    | model => simp +decide [lookup_move, lookup_withModel, finalOf]
    | sern => simp +decide [lookup_move, lookup_withModel, finalOf, hv]
    | other n h₁ h₂ h₃ h₄ => simp [lookup_move, lookup_withModel, finalOf, h₁, h₂, h₃, h₄]
  | none =>
    have hnone : ¬ serialName ∈ withModel d := by rw [hserial, hv]; simp
    rw [if_neg hnone]
    induction n using name_cases with
    | serial => simp +decide [lookup_move, lookup_withModel, finalOf, hv]
    | sn => simp +decide [lookup_move, lookup_withModel, serialOf, hv]
    | model => simp +decide [lookup_move, lookup_withModel, finalOf]
    | sern => simp +decide [lookup_move, finalOf, hv]
    | other n h₁ h₂ h₃ h₄ => simp [lookup_move, lookup_withModel, finalOf, h₁, h₂, h₃, h₄]

theorem parseDeviceID_eq (s : List Char) :
    parseDeviceID s = (serialOf (fieldDict s).lookup).map fun v =>
      if v.head? = some 'X' then (renamed (fieldDict s)).insert snName (some [])
      else renamed (fieldDict s) := by
  have hsn : (renamed (fieldDict s)).lookup snName = some (serialOf (fieldDict s).lookup) :=
    (lookup_renamed _ _).trans (if_pos rfl)
  simp only [parseDeviceID, hsn]
  cases serialOf (fieldDict s).lookup <;> rfl

/-- **The dictionary** has the values of the fields but for the names that are replaced. -/
theorem lookup_parseDeviceID {s : List Char} {d : Dict} (h : parseDeviceID s = some d)
    (n : List Char) : d.lookup n = finalOf (fieldDict s).lookup n := by
  rw [parseDeviceID_eq, Option.map_eq_some_iff] at h
  obtain ⟨v, hv, rfl⟩ := h
  have hn := lookup_renamed (fieldDict s) n
  by_cases hsn : n = snName
  · subst hsn
    have hfinal : finalOf (fieldDict s).lookup snName = some (some (blankX v)) := by
      simp +decide [finalOf, hv]
    rw [hfinal, blankX]
    by_cases hx : v.head? = some 'X'
    · rw [if_pos hx, if_pos hx, AList.lookup_insert]
    · rw [if_neg hx, if_neg hx, hn, if_pos rfl, hv]
  · rw [if_neg hsn] at hn
    split
    · rw [AList.lookup_insert_ne hsn, hn]
    · exact hn

/-! ## The texts of the fields -/

def IdField.stored : IdField → Option (List Char)
  | .pair _ value => some ((value.rdropWhile isSpace).takeWhile (· ≠ ':'))
  | .bare _ => none

theorem headD_splitOn (c : Char) (s : List Char) :
    (s.splitOn c).headD [] = s.takeWhile (· ≠ c) := by
  by_cases hc : c ∈ s
  · obtain ⟨a, b, rfl, ha⟩ := List.eq_append_cons_of_mem hc
    have hall : ∀ x ∈ a, decide (x ≠ c) = true := fun x hx =>
      decide_eq_true fun h => ha (h ▸ hx)
    rw [List.splitOn_append_cons_self_of_not_mem ha, List.headD_cons,
      List.takeWhile_append_of_pos hall]
    simp
  · have hall : ∀ x ∈ s, decide (x ≠ c) = true := fun x hx =>
      decide_eq_true fun h => hc (h ▸ hx)
    rw [List.splitOn_eq_singleton hc, List.takeWhile_eq_self_iff.mpr hall]
    rfl

/-- **A field** is stored under its name. -/
theorem entry_strip_text {f : IdField} (hf : f.Sound) : entry (strip f.text) = (f.name, f.stored) := by
  cases f with
  | pair key value =>
    obtain ⟨-, hcolon, -, -⟩ := hf
    have hkey : ':' ∉ key.dropWhile isSpace := fun h => hcolon ((List.dropWhile_suffix _).subset h)
    have hstrip : strip (IdField.pair key value).text
        = key.dropWhile isSpace ++ ':' :: value.rdropWhile isSpace := by
      rw [IdField.text, strip, rdropWhile_append_stop rfl, dropWhile_append_stop rfl]
    have hsplit := List.splitOn_append_cons_self_of_not_mem hkey (value.rdropWhile isSpace)
    have hvalue := headD_splitOn ':' (value.rdropWhile isSpace)
    rw [hstrip, entry, hsplit, List.headD_cons, strip_dropWhile, IdField.name, IdField.stored, ← hvalue]
    cases hrest : (value.rdropWhile isSpace).splitOn ':' with
    | nil => exact absurd hrest (List.splitOn_ne_nil _ _)
    | cons w ws => rfl
  | bare s =>
    have hcolon : ':' ∉ strip s := fun h => hf.1 (mem_of_mem_strip h)
    rw [IdField.text, entry, List.splitOn_eq_singleton hcolon, IdField.name, IdField.stored]
    exact Prod.ext (strip_strip s) rfl

theorem IdField.Sound.notMem_text {f : IdField} (hf : f.Sound) : ';' ∉ f.text := by
  cases f with
  | pair key value => simp [IdField.text, hf.2.2.1, hf.2.2.2]
  | bare s => exact hf.2

theorem splitOn_textOf {fs : List IdField} (hfs : ∀ f ∈ fs, f.Sound) :
    (textOf fs).splitOn ';' = fs.map IdField.text ++ [[]] := by
  induction fs with
  | nil => exact List.splitOn_nil ';'
  | cons f fs ih =>
    obtain ⟨hf, hrest⟩ := List.forall_mem_cons.mp hfs
    have htext : textOf (f :: fs) = f.text ++ ';' :: textOf fs := by simp [textOf]
    rw [htext, List.splitOn_append_cons_self_of_not_mem hf.notMem_text, ih hrest]
    rfl

theorem rdropWhile_textOf (fs : List IdField) : (textOf fs).rdropWhile isSpace = textOf fs := by
  induction fs with
  | nil => rfl
  | cons f fs ih =>
    have htext : textOf (f :: fs) = f.text ++ ';' :: textOf fs := by simp [textOf]
    rw [htext, rdropWhile_append_stop rfl, ih]

theorem entry_nil : entry (strip []) = ([], none) := rfl

theorem find_entries {n : List Char} (hn : n ≠ []) (ts : List (List Char)) :
    (((ts.filter (· ≠ [])).map strip).map entry).find? (fun e => e.1 = n)
      = (ts.map fun t => entry (strip t)).find? fun e => e.1 = n := by
  induction ts with
  | nil => rfl
  | cons t ts ih =>
    by_cases ht : t = []
    · subst ht
      rw [List.map_cons, List.find?_cons_of_neg, ← ih]
      · rfl
      · simpa [entry_nil] using Ne.symm hn
    · have hfilter : (t :: ts).filter (· ≠ []) = t :: ts.filter (· ≠ []) :=
        List.filter_cons_of_pos (decide_eq_true ht)
      rw [hfilter, List.map_cons, List.map_cons, List.map_cons, List.find?_cons, List.find?_cons, ih]

/-- **The dictionary of the fields** has for a name the first field of this name. -/
theorem lookup_fieldDict {fs : List IdField} (hfs : ∀ f ∈ fs, f.Sound) {n : List Char} (hn : n ≠ []) :
    (fieldDict (textOf fs)).lookup n = (fs.find? fun f => f.name = n).map IdField.stored := by
  have hentries : ((fieldTexts (textOf fs)).map entry).find? (fun e => e.1 = n)
      = (fs.map (fun f : IdField => (f.name, f.stored)) ++ [([], none)]).find? fun e => e.1 = n := by
    rw [fieldTexts, find_entries hn, strip, rdropWhile_textOf]
    congr 1
    cases fs with
    | nil => rfl
    | cons f fs =>
      obtain ⟨hf, hrest⟩ := List.forall_mem_cons.mp hfs
      have htext : textOf (f :: fs) = f.text ++ ';' :: textOf fs := by simp [textOf]
      have hfirst : ';' ∉ f.text.dropWhile isSpace := fun h =>
        hf.notMem_text ((List.dropWhile_suffix _).subset h)
      rw [htext, dropWhile_append_stop rfl, List.splitOn_append_cons_self_of_not_mem hfirst,
        splitOn_textOf hrest, List.map_cons, strip_dropWhile, entry_strip_text hf, List.map_append,
        List.map_map]
      have hmap : fs.map ((fun t => entry (strip t)) ∘ IdField.text)
          = fs.map fun f => (f.name, f.stored) :=
        List.map_congr_left fun g hg => entry_strip_text (hrest g hg)
      rw [hmap]
      rfl
  have hlast : ([([], none)] : List (List Char × Option (List Char))).find? (fun e => e.1 = n)
      = none := by
    simpa using Ne.symm hn
  rw [fieldDict, lookup_foldl_setdefault, hentries, List.find?_append, hlast, Option.or_none,
    List.find?_map, Option.map_map, AList.lookup_empty, Option.none_or]
  rfl

/-! ## The fields that are chosen -/

section Chosen

variable {fs : List IdField} {n : List Char} {ns : List (List Char)} {f g : IdField}

theorem chosen_cons : chosen (n :: ns) fs = (fs.find? fun f => f.name = n).or (chosen ns fs) := by
  rw [chosen, List.findSome?_cons, chosen]
  cases fs.find? fun f => f.name = n <;> rfl

theorem chosen_single : chosen [n] fs = fs.find? fun f => f.name = n := by
  rw [chosen_cons]
  exact Option.or_none

theorem chosen_filter (h : chosen ns fs = some g) (hg : g.isPair = true) :
    chosen ns (fs.filter IdField.isPair) = some g := by
  induction ns with
  | nil => cases h
  | cons n ns ih =>
    rw [chosen_cons] at h ⊢
    cases hfind : fs.find? fun f => f.name = n with
    | none =>
      rw [hfind, Option.none_or] at h
      have hnone : (fs.filter IdField.isPair).find? (fun f => f.name = n) = none := by
        rw [List.find?_eq_none] at hfind ⊢
        exact fun x hx => hfind x (List.mem_of_mem_filter hx)
      rw [hnone, Option.none_or, ih h]
    | some x =>
      rw [hfind, Option.some_or] at h
      cases h
      rw [List.find?_eq_some_iff_append] at hfind
      obtain ⟨hname, as, bs, rfl, has⟩ := hfind
      have hfilter : ((as ++ g :: bs).filter IdField.isPair).find? (fun f => f.name = n) = some g := by
        rw [List.filter_append, List.filter_cons_of_pos hg, List.find?_append,
          List.find?_eq_none.mpr fun x hx => ?_, Option.none_or, List.find?_cons, hname]
        simpa using has x (List.mem_of_mem_filter hx)
      rw [hfilter, Option.some_or]

theorem chosen_isSome (h : chosen ns (fs.filter IdField.isPair) = some f) :
    ∃ g, chosen ns fs = some g := by
  obtain ⟨n, hn, hfind⟩ := List.exists_of_findSome?_eq_some h
  by_contra hnone
  have hall := List.findSome?_eq_none_iff.mp
    (Option.eq_none_iff_forall_ne_some.mpr fun g hg => hnone ⟨g, hg⟩) n hn
  have hname : decide (f.name = n) = true :=
    List.find?_some (p := fun f : IdField => decide (f.name = n)) hfind
  exact List.find?_eq_none.mp hall f (List.mem_of_mem_filter (List.mem_of_find?_eq_some hfind)) hname

end Chosen

/-! ## Values -/

theorem takeWhile_eq_dropWhile_iff (r : List Char) :
    r.takeWhile (· ≠ ':') = r.dropWhile isSpace ↔
      ':' ∉ r ∧ ∀ c ∈ r.head?, isSpace c = false := by
  cases r with
  | nil => simp
  | cons x t =>
    by_cases hx : isSpace x = true
    · have hne : decide (x ≠ ':') = true := decide_eq_true fun h => by rw [h] at hx; cases hx
      refine iff_of_false ?_ fun h => by rw [h.2 x rfl] at hx; cases hx
      rw [List.takeWhile_cons_of_pos (p := fun c => decide (c ≠ ':')) hne,
        List.dropWhile_cons_of_pos hx]
      intro h
      have hhead := List.head?_dropWhile_not isSpace t
      rw [← h, List.head?_cons] at hhead
      exact absurd hx (by simpa using hhead)
    · have hx' : isSpace x = false := Bool.eq_false_iff.mpr hx
      have hall : (∀ c ∈ x :: t, decide (c ≠ ':') = true) ↔ ':' ∉ x :: t := by
        simp only [decide_eq_true_eq]
        exact ⟨fun h hc => h _ hc rfl, fun h c hc heq => h (heq ▸ hc)⟩
      rw [List.dropWhile_cons_of_neg hx, List.takeWhile_eq_self_iff, hall]
      exact (and_iff_left fun c hc => by cases hc; exact hx').symm

theorem stored_eq_strip_iff (v : List Char) :
    (v.rdropWhile isSpace).takeWhile (· ≠ ':') = strip v ↔ Clean v := by
  have hcolon : ':' ∉ v.rdropWhile isSpace ↔ ':' ∉ v := by
    refine not_congr ⟨fun h => (List.rdropWhile_prefix _ _).subset h, fun h => ?_⟩
    obtain ⟨a, b, rfl⟩ := List.append_of_mem h
    rw [rdropWhile_append_stop rfl]
    exact List.mem_append_right _ (List.mem_cons_self ..)
  rw [strip, takeWhile_eq_dropWhile_iff, Clean, hcolon]

theorem blankX_stored_iff (v : List Char) :
    blankX ((v.rdropWhile isSpace).takeWhile (· ≠ ':')) = blankX (strip v) ↔
      Clean v ∨ v.head? = some 'X' := by
  by_cases hx : v.head? = some 'X'
  · obtain ⟨t, rfl⟩ : ∃ t, v = 'X' :: t := by
      cases v with
      | nil => cases hx
      | cons c t => exact ⟨t, by rw [List.head?_cons] at hx; cases hx; rfl⟩
    have hstrip : strip ('X' :: t) = 'X' :: t.rdropWhile isSpace :=
      strip_append (a := []) (fun y hy => nomatch hy) rfl
    have hstored : ('X' :: t).rdropWhile isSpace = 'X' :: t.rdropWhile isSpace :=
      rdropWhile_append_stop (c := 'X') rfl [] t
    refine iff_of_true ?_ (.inr hx)
    rw [hstrip, hstored]
    rfl
  · rw [or_iff_left hx, ← stored_eq_strip_iff]
    -- neither is blanked, or both values are empty
    generalize hr : v.rdropWhile isSpace = r
    have hhead : r.head? ≠ some 'X' := by
      intro h
      obtain ⟨u, hu⟩ := List.rdropWhile_prefix isSpace v
      rw [hr] at hu
      cases r with
      | nil => cases h
      | cons c r =>
        rw [← hu] at hx
        exact hx h
    have hstored : (r.takeWhile (· ≠ ':')).head? ≠ some 'X' := by
      cases r with
      | nil => simp
      | cons c r =>
        by_cases hc : c = ':'
        · simp [hc]
        · rw [List.takeWhile_cons_of_pos (p := fun c => decide (c ≠ ':')) (decide_eq_true hc)]
          exact hhead
    rw [blankX, if_neg hstored, blankX, strip, hr]
    by_cases hstrip : (r.dropWhile isSpace).head? = some 'X'
    · rw [if_pos hstrip]
      refine iff_of_false ?_ ?_
      · cases r with
        | nil => cases hstrip
        | cons c r =>
          by_cases hc : isSpace c = true
          · have hne : decide (c ≠ ':') = true := decide_eq_true fun h => by rw [h] at hc; cases hc
            rw [List.takeWhile_cons_of_pos (p := fun c => decide (c ≠ ':')) hne]
            exact List.cons_ne_nil _ _
          · rw [List.dropWhile_cons_of_neg hc] at hstrip
            exact absurd hstrip hhead
      · intro h
        rw [h] at hstored
        exact hstored hstrip
    · rw [if_neg hstrip]

/-! ## Device ids -/

namespace DeviceId

variable {i : DeviceId} {n : List Char} {f g : IdField}

abbrev dict (i : DeviceId) : List Char → Option (Option (List Char)) :=
  (fieldDict (textOf i.fields)).lookup

theorem dict_eq (hn : n ≠ []) :
    i.dict n = (i.fields.find? fun f => f.name = n).map IdField.stored :=
  lookup_fieldDict i.sound hn

theorem serialOf_dict : serialOf i.dict
    = ((chosen (sources snName) i.fields).map IdField.stored).getD (some []) := by
  have hsources : sources snName = [serialName, sernName, snName] := rfl
  have hserial : i.dict serialName = _ := dict_eq (by decide)
  have hsern : i.dict sernName = _ := dict_eq (by decide)
  have hsn : i.dict snName = _ := dict_eq (by decide)
  rw [serialOf, hserial, hsern, hsn, hsources, chosen_cons, chosen_cons, chosen_single,
    Option.map_or, Option.map_or]

theorem dict_serial_isSome (h : chosen [serialName] i.pairs ≠ none) :
    (i.dict serialName).isSome = true := by
  obtain ⟨f, hf⟩ := Option.ne_none_iff_exists'.mp h
  obtain ⟨g, hg⟩ := chosen_isSome hf
  have hserial : i.dict serialName = _ := dict_eq (by decide)
  rw [hserial, ← chosen_single, hg]
  rfl

theorem finalOf_dict (hn : n ≠ []) (hmoved : ¬ i.Moved n)
    (hg : chosen (sources n) i.fields = some g) :
    finalOf i.dict n = some (if n = snName then g.stored.map blankX else g.stored) := by
  have hreplaced : ¬ (n = modelName ∨ n = serialName) := fun h => hmoved (h.imp_right .inl)
  rw [finalOf, if_neg hreplaced]
  by_cases hsern : n = sernName
  · have hsome := dict_serial_isSome fun h => hmoved (.inr (.inr ⟨hsern, h⟩))
    subst hsern
    have hsources : sources sernName = [sernName] := rfl
    rw [hsources, chosen_single] at hg
    rw [if_pos rfl, if_pos hsome, dict_eq hn, hg]
    rfl
  · rw [if_neg hsern]
    by_cases hmdl : n = mdlName
    · subst hmdl
      have hsources : sources mdlName = [modelName, mdlName] := rfl
      have hmodel : i.dict modelName = _ := dict_eq (by decide)
      rw [hsources, chosen_cons, chosen_single] at hg
      rw [if_pos rfl, hmodel, dict_eq hn, ← Option.map_or, hg]
      rfl
    · rw [if_neg hmdl]
      by_cases hsn : n = snName
      · subst hsn
        rw [if_pos rfl, if_pos rfl, serialOf_dict, hg]
        rfl
      · have hsources : sources n = [n] := by rw [sources, if_neg hmdl, if_neg hsn]
        rw [hsources, chosen_single] at hg
        rw [if_neg hsn, if_neg hsn, dict_eq hn, hg]
        rfl

theorem finalOf_moved (hserial : ∀ f, chosen (sources snName) i.fields = some f → f.isPair = true)
    (hmoved : i.Moved n) : finalOf i.dict n = none := by
  rw [finalOf]
  rcases hmoved with rfl | rfl | ⟨rfl, hnone⟩
  · rfl
  · rfl
  · have hdict : i.dict serialName = _ := dict_eq (by decide)
    have hnot : i.dict serialName = none := by
      rw [hdict, ← chosen_single, Option.map_eq_none_iff]
      refine Option.eq_none_iff_forall_ne_some.mpr fun g hg => ?_
      have hsources : sources snName = [serialName, sernName, snName] := rfl
      have hchosen : chosen (sources snName) i.fields = some g := by
        rw [chosen_single] at hg
        rw [hsources, chosen_cons, hg, Option.some_or]
      rw [pairs, chosen_filter hg (hserial g hchosen)] at hnone
      cases hnone
    rw [hnot]
    rfl

theorem isPair_of_stored {v : List Char} (h : g.stored = some v) : g.isPair = true := by
  cases g with
  | pair key value => rfl
  | bare s => cases h

theorem stored_of_isPair (h : g.isPair = true) :
    g.stored = some ((g.value.rdropWhile isSpace).takeWhile (· ≠ ':')) := by
  cases g with
  | pair key value => rfl
  | bare s => cases h

theorem name_ne_nil (h : chosen (sources n) i.pairs = some f) : n ≠ [] := by
  rintro rfl
  have hsources : sources [] = [[]] := rfl
  rw [hsources, chosen_single] at h
  have hname : f.name = [] := by simpa using List.find?_some h
  obtain ⟨hmem, hpair⟩ := List.mem_filter.mp (List.mem_of_find?_eq_some h)
  have hsound := i.sound f hmem
  cases f with
  | pair key value => exact hsound.1 hname
  | bare s => cases hpair

theorem stored_eq_wanted_iff (h : g.isPair = true) :
    (if n = snName then g.stored.map blankX else g.stored) = some (wanted n g) ↔
      Clean g.value ∨ n = snName ∧ g.value.head? = some 'X' := by
  rw [stored_of_isPair h, wanted]
  by_cases hn : n = snName
  · rw [if_pos hn, if_pos hn, Option.map_some, Option.some.injEq, blankX_stored_iff]
    simp [hn]
  · rw [if_neg hn, if_neg hn, Option.some.injEq, stored_eq_strip_iff]
    simp [hn]

end DeviceId

/-- **Device ids parse back** if the fields without a value are in nobody's way and the values are
clean. -/
theorem parsesBack_iff_readable (i : DeviceId) : i.ParsesBack ↔ i.Readable := by
  constructor
  · rintro ⟨d, hd, hvalues, -⟩
    refine ⟨?_, ?_⟩
    · intro g hg
      have hsome : serialOf i.dict ≠ none := by
        intro hnone
        rw [parseDeviceID_eq, hnone] at hd
        cases hd
      rw [DeviceId.serialOf_dict, hg] at hsome
      obtain ⟨v, hv⟩ := Option.ne_none_iff_exists'.mp hsome
      exact DeviceId.isPair_of_stored hv
    · intro n hmoved f hf
      have hvalue := hvalues n hmoved f hf
      obtain ⟨g, hg⟩ := chosen_isSome hf
      rw [lookup_parseDeviceID hd, DeviceId.finalOf_dict (DeviceId.name_ne_nil hf) hmoved hg,
        Option.some.injEq] at hvalue
      have hpair : g.isPair = true := by
        split at hvalue
        · obtain ⟨v, hv, -⟩ := Option.map_eq_some_iff.mp hvalue
          exact DeviceId.isPair_of_stored hv
        · exact DeviceId.isPair_of_stored hvalue
      -- the field that is chosen is the one that is meant
      have hsame : g = f := Option.some.inj ((chosen_filter hg hpair).symm.trans hf)
      subst hsame
      exact ⟨hg, (DeviceId.stored_eq_wanted_iff hpair).mp hvalue⟩
  · rintro ⟨hserial, hreads⟩
    have hsome : serialOf i.dict ≠ none := by
      rw [DeviceId.serialOf_dict]
      cases hg : chosen (sources snName) i.fields with
      | none => simp
      | some g =>
        rw [Option.map_some, Option.getD_some, DeviceId.stored_of_isPair (hserial g hg)]
        simp
    obtain ⟨v, hv⟩ := Option.ne_none_iff_exists'.mp hsome
    have hd := parseDeviceID_eq (textOf i.fields)
    rw [hv, Option.map_some] at hd
    refine ⟨_, hd, ?_, ?_⟩
    · intro n hmoved f hf
      obtain ⟨hg, hclean⟩ := hreads n hmoved f hf
      have hpair : f.isPair = true := by
        obtain ⟨m, -, hfind⟩ := List.exists_of_findSome?_eq_some hf
        exact (List.mem_filter.mp (List.mem_of_find?_eq_some hfind)).2
      rw [lookup_parseDeviceID hd, DeviceId.finalOf_dict (DeviceId.name_ne_nil hf) hmoved hg]
      exact congrArg some ((DeviceId.stored_eq_wanted_iff hpair).mpr hclean)
    · intro n hmoved
      rw [lookup_parseDeviceID hd]
      exact DeviceId.finalOf_moved hserial hmoved

/-- `MFG:HP;URL:http:x;`. -/
def withColon : DeviceId where
  fields := [.pair ['M', 'F', 'G'] ['H', 'P'], .pair ['U', 'R', 'L'] ['h', 't', 't', 'p', ':', 'x']]
  sound f hf := by
    rcases List.mem_cons.mp hf with rfl | hf
    · exact ⟨by decide, by decide, by decide, by decide⟩
    · rw [List.mem_singleton.mp hf]
      exact ⟨by decide, by decide, by decide, by decide⟩

/-- What is behind a second colon is lost. -/
theorem withColon_not_parsed : ¬ withColon.ParsesBack := by
  rintro ⟨d, hd, hvalues, -⟩
  have hmoved : ¬ withColon.Moved ['U', 'R', 'L'] := by
    rintro (h | h | ⟨h, -⟩) <;> exact absurd h (by decide)
  have hurl := hvalues ['U', 'R', 'L'] hmoved _ rfl
  rw [lookup_parseDeviceID hd, DeviceId.finalOf_dict (by decide) hmoved rfl] at hurl
  exact absurd hurl (by decide)

end Hplip.Base
