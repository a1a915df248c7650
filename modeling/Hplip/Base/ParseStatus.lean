import Mathlib
import Hplip.Base.ParseSStatus

/-!
# The status of a device id (status.py)

A device id tells its state in a field VSTATUS of words, or in a field S of digits with a field Z
about its supplies. What a firmware sends is not checked before it is parsed.

`int` is the conversion of the version that runs the code: what it takes for a number differs.
-/

namespace Hplip.Base.SStatus

/-! ## The code -/

inductive Raised where
  | assertionError
  | keyError
  | valueError
  deriving DecidableEq

/-- A pen of a VSTATUS; a key that was not set is `none`. -/
structure VPen where
  type : Option Nat
  kind : Option Nat
  health : Option Nat
  state : Option Nat
  level : Option Int

/-- `{}` -/
def VPen.empty : VPen := ⟨none, none, none, none, none⟩

abbrev agentTypeNone : Nat := 0
abbrev agentTypeBlack : Nat := 1
abbrev agentTypeCmy : Nat := 2
abbrev agentTypeKcm : Nat := 3
abbrev agentKindNone : Nat := 0
abbrev agentKindHeadAndSupply : Nat := 3
abbrev agentHealthOk : Nat := 0
abbrev agentHealthMisinstalled : Nat := 1

/-- `pen['type']` -/
def VPen.getType (pen : VPen) : Except Raised Nat :=
  match pen.type with
  | some t => .ok t
  | none => .error .keyError

section Int

variable (int : List Char → Option Int)

/-- `pen['level'] = int(f[2:])` -/
def setLevel (pen : VPen) (f : List Char) : Except Raised VPen :=
  match int (f.drop 2) with
  | some n => .ok { pen with level := some n }
  | none => .error .valueError

/-- `f[:2] == key and pen['type'] == type` -/
def isLevelOf (pen : VPen) (f key : List Char) (type : Nat) : Except Raised Bool :=
  if f.take 2 = key then do
    let t ← pen.getType
    pure (t == type)
  else .ok false

def levelField (pen : VPen) (f : List Char) : Except Raised VPen := do
  if ← isLevelOf pen f ['K', 'P'] agentTypeBlack then setLevel int pen f
  else if ← isLevelOf pen f ['C', 'P'] agentTypeCmy then setLevel int pen f
  else pure pen

def penLetter (pen : VPen) (p : Char) : VPen :=
  let pen := { pen with health := some agentHealthOk, kind := some agentKindHeadAndSupply }
  if p = 'b' ∨ p = 'B' then { pen with type := some agentTypeBlack }
  else if p = 'c' ∨ p = 'C' then { pen with type := some agentTypeCmy }
  else if p = 'd' ∨ p = 'D' then { pen with type := some agentTypeKcm }
  else if p = 'u' ∨ p = 'U' then
    { pen with type := some agentTypeNone, health := some agentHealthMisinstalled }
  else pen

/-- The loop over the first field: `c` is the place in a pen. -/
def penChars (fields : List (List Char)) :
    (c : Nat) → VPen → List VPen → List Char → Except Raised (List VPen)
  | _, _, pens, [] => .ok pens
  | 0, pen, pens, _ :: f0 => penChars fields 1 pen pens f0
  | 1, pen, pens, p :: f0 =>
    let pen := if p = 'a' ∨ p = 'A' then
      { pen with type := some agentTypeNone, kind := some agentKindNone } else pen
    penChars fields 2 pen pens f0
  | 2, pen, pens, p :: f0 => penChars fields 3 (penLetter pen p) pens f0
  | 3, pen, pens, p :: f0 => do
    let pen := { pen with state := some (if p = '0' then 1 else 0), level := some 0 }
    let pen ← (fields.drop 8).foldlM (levelField int) pen
    penChars fields 0 VPen.empty (pens ++ [pen]) f0
  | c + 4, pen, pens, _ :: f0 => penChars fields (c + 4) pen pens f0

end Int

def vstatusXlate : List (List Char × Nat) :=
  [(['b', 'u', 's', 'y'], 1001), (['i', 'd', 'l', 'e'], 1000), (['p', 'r', 'n', 't'], 1002),
    (['o', 'f', 'f', 'f'], 1003), (['r', 'p', 'r', 't'], 1004), (['c', 'n', 'c', 'l'], 1005),
    (['i', 'o', 's', 't'], 1006), (['d', 'r', 'y', 'w'], 1007), (['p', 'e', 'n', 'c'], 1008),
    (['o', 'o', 'p', 'a'], 1009), (['b', 'n', 'e', 'j'], 1010), (['b', 'n', 'm', 'z'], 1011),
    (['p', 'h', 'm', 'z'], 1012), (['d', 'p', 'm', 'z'], 1013), (['p', 'a', 'j', 'm'], 1014),
    (['c', 'a', 'r', 's'], 1015), (['p', 'a', 'p', 's'], 1016), (['p', 'e', 'n', 'f'], 1017),
    (['e', 'r', 'r', 'o'], 1018), (['p', 'w', 'd', 'n'], 1019), (['f', 'p', 't', 's'], 1020),
    (['c', 'l', 'n', 'o'], 1021)]

abbrev statusPrinterIdle : Nat := 1000

structure VStatus where
  agents : List VPen
  topDoor : Nat
  statusCode : Nat

/-- The pens in the first field; in another style, which has 20 characters, none are looked for. -/
def vstatusPens (int : List Char → Option Int) (fields : List (List Char)) :
    Except Raised (List VPen) :=
  let f0 := fields.headD []
  if f0.length = 8 then penChars int fields 0 VPen.empty [] f0 else .ok []

def parseVStatus (int : List Char → Option Int) (s : List Char) : Except Raised VStatus := do
  let fields := s.splitOn ','
  let pens ← vstatusPens int fields
  let topLid := match fields[2]? with
    | none => 1
    | some f => if f = ['D', 'N'] then 1 else 2
  let stat := match fields[3]? with
    | none => statusPrinterIdle
    | some f => (vstatusXlate.lookup (f.map Char.toLower)).getD statusPrinterIdle
  pure ⟨pens, topLid, stat⟩

inductive StatusBlock where
  | v (st : VStatus)
  | s (st : Status)
  | unknown

structure DeviceID where
  vstatus : Option (List Char)
  s : Option (List Char)
  z : Option (List Char)

def parseStatus (trueDivision : Bool) (int : List Char → Option Int) (d : DeviceID) :
    Except Raised StatusBlock :=
  match d.vstatus, d.s with
  | some v, _ => (parseVStatus int v).map .v
  | none, some s =>
    match parseSStatus trueDivision s (d.z.getD []) with
    | some st => .ok (.s st)
    | none => .error .assertionError
  | none, none => .ok .unknown

/-! ## The fields that are parsed -/

/-- The type of a pen, by its first two characters behind the `$`. -/
def penType (first second : Char) : Option Nat :=
  if second = 'b' ∨ second = 'B' then some agentTypeBlack
  else if second = 'c' ∨ second = 'C' then some agentTypeCmy
  else if second = 'd' ∨ second = 'D' then some agentTypeKcm
  else if second = 'u' ∨ second = 'U' then some agentTypeNone
  else if first = 'a' ∨ first = 'A' then some agentTypeNone
  else none

/-- A field that is about a level has a pen with a type, and a number for a pen of its own. -/
def LevelOk (int : List Char → Option Int) (type : Option Nat) (f : List Char) : Prop :=
  (f.take 2 = ['K', 'P'] → type ≠ none ∧
    (type = some agentTypeBlack → (int (f.drop 2)).isSome)) ∧
  (f.take 2 = ['C', 'P'] → type ≠ none ∧
    (type = some agentTypeCmy → (int (f.drop 2)).isSome))

/-- **A VSTATUS that is parsed**: its first field has not eight characters, or both pens in it have
good levels in the fields from the ninth one on. -/
def VStatusOk (int : List Char → Option Int) (v : List Char) : Prop :=
  let fields := v.splitOn ','
  let f0 := fields.headD []
  f0.length = 8 → ∀ f ∈ fields.drop 8,
    LevelOk int (penType (f0.getD 1 '$') (f0.getD 2 '$')) f ∧
      LevelOk int (penType (f0.getD 5 '$') (f0.getD 6 '$')) f

/-- **An S-field that is parsed**: not all of it or of the supplies are digits, or its revision is
missing or known. -/
def SStatusOk (s z : List Char) : Prop :=
  ∀ digits revision, (zDigits z).isSome → s.mapM ofHex = some digits → digits[1]? = some revision →
    revision ≤ 4

/-- **A device id whose status is parsed.** -/
def StatusOk (int : List Char → Option Int) (d : DeviceID) : Prop :=
  match d.vstatus, d.s with
  | some v, _ => VStatusOk int v
  | none, some s => SStatusOk s (d.z.getD [])
  | none, none => True

/-! ## Results without an exception -/

section Returns

variable {int : List Char → Option Int} {pen : VPen} {fields : List (List Char)} {t : Option Nat}

def Succeeds {ε α : Type} (x : Except ε α) : Prop := ∃ a, x = .ok a

theorem succeeds_ok {ε α : Type} (a : α) : Succeeds (.ok a : Except ε α) := ⟨a, rfl⟩

theorem not_succeeds_error {ε α : Type} (e : ε) : ¬ Succeeds (.error e : Except ε α) := nofun

theorem succeeds_bind {ε α β : Type} {x : Except ε α} {f : α → Except ε β} {P : Prop}
    (hf : ∀ a, x = .ok a → (Succeeds (f a) ↔ P)) : Succeeds (x >>= f) ↔ Succeeds x ∧ P := by
  cases x with
  | error e => exact iff_of_false (not_succeeds_error e) fun h => not_succeeds_error e h.1
  | ok a => exact (hf a rfl).trans (and_iff_right (succeeds_ok a)).symm

theorem setLevel_spec (int : List Char → Option Int) (pen : VPen) (f : List Char) :
    (Succeeds (setLevel int pen f) ↔ (int (f.drop 2)).isSome) ∧
      ∀ pen', setLevel int pen f = .ok pen' → pen'.type = pen.type := by
  rw [setLevel]
  cases int (f.drop 2) with
  | none => exact ⟨iff_of_false (not_succeeds_error _) Bool.false_ne_true, nofun⟩
  | some n => exact ⟨iff_of_true (succeeds_ok _) rfl, fun _ h => Except.ok.inj h ▸ rfl⟩

theorem isLevelOf_other {f key : List Char} (h : f.take 2 ≠ key) (type : Nat) :
    isLevelOf pen f key type = .ok false := if_neg h

theorem isLevelOf_key {f key : List Char} (h : f.take 2 = key) (ht : pen.type = some n)
    (type : Nat) : isLevelOf pen f key type = .ok (n == type) := by
  rw [isLevelOf, if_pos h, VPen.getType, ht]
  rfl

theorem isLevelOf_missing {f key : List Char} (h : f.take 2 = key) (ht : pen.type = none)
    (type : Nat) : isLevelOf pen f key type = .error .keyError := by
  rw [isLevelOf, if_pos h, VPen.getType, ht]
  rfl

theorem levelField_spec (int : List Char → Option Int) (ht : pen.type = t) (f : List Char) :
    (Succeeds (levelField int pen f) ↔ LevelOk int t f) ∧
      ∀ pen', levelField int pen f = .ok pen' → pen'.type = t := by
  obtain ⟨hset, hkept⟩ := setLevel_spec int pen f
  rw [ht] at hkept
  rw [levelField, LevelOk]
  by_cases hk : f.take 2 = ['K', 'P']
  · have hc : f.take 2 ≠ ['C', 'P'] := hk ▸ by decide
    rw [and_iff_left fun h => absurd h hc, forall_prop_of_true hk]
    cases t with
    | none =>
      rw [isLevelOf_missing hk ht]
      exact ⟨iff_of_false (not_succeeds_error _) fun h => h.1 rfl, nofun⟩
    | some n =>
      rw [isLevelOf_key hk ht, isLevelOf_other hc, and_iff_right (Option.some_ne_none n)]
      by_cases hn : n = agentTypeBlack
      · subst hn
        exact ⟨hset.trans ⟨fun h _ => h, fun h => h rfl⟩, hkept⟩
      · rw [beq_false_of_ne hn]
        exact ⟨iff_of_true (succeeds_ok _) fun h => absurd (Option.some.inj h) hn,
          fun _ h => Except.ok.inj h ▸ ht⟩
  · rw [isLevelOf_other hk, and_iff_right fun h => absurd h hk]
    by_cases hc : f.take 2 = ['C', 'P']
    · rw [forall_prop_of_true hc]
      cases t with
      | none =>
        rw [isLevelOf_missing hc ht]
        exact ⟨iff_of_false (not_succeeds_error _) fun h => h.1 rfl, nofun⟩
      | some n =>
        rw [isLevelOf_key hc ht, and_iff_right (Option.some_ne_none n)]
        by_cases hn : n = agentTypeCmy
        · subst hn
          exact ⟨hset.trans ⟨fun h _ => h, fun h => h rfl⟩, hkept⟩
        · rw [beq_false_of_ne hn]
          exact ⟨iff_of_true (succeeds_ok _) fun h => absurd (Option.some.inj h) hn,
            fun _ h => Except.ok.inj h ▸ ht⟩
    · rw [isLevelOf_other hc]
      exact ⟨iff_of_true (succeeds_ok _) fun h => absurd h hc, fun _ h => Except.ok.inj h ▸ ht⟩

theorem levelFields_iff (ht : pen.type = t) :
    Succeeds (fields.foldlM (levelField int) pen) ↔ ∀ f ∈ fields, LevelOk int t f := by
  induction fields generalizing pen with
  | nil => exact iff_of_true (succeeds_ok pen) fun _ h => absurd h List.not_mem_nil
  | cons f fields ih =>
    obtain ⟨hok, hkept⟩ := levelField_spec int ht f
    rw [List.foldlM_cons, List.forall_mem_cons, ← hok]
    exact succeeds_bind fun pen' h => ih (hkept pen' h)

theorem penLetter_type (pen : VPen) (first second : Char)
    (h : pen.type = if first = 'a' ∨ first = 'A' then some agentTypeNone else none) :
    (penLetter pen second).type = penType first second := by
  rw [penLetter, penType, ← h]
  split_ifs <;> rfl

end Returns

/-! ## Which device ids are parsed -/

section Parsed

variable {int : List Char → Option Int}

theorem penChars_pen (int : List Char → Option Int) (fields : List (List Char))
    (p₀ p₁ p₂ p₃ : Char) (pens : List VPen) (f0 : List Char) : ∃ pen : VPen, pen.type = penType p₁ p₂ ∧
      penChars int fields 0 VPen.empty pens (p₀ :: p₁ :: p₂ :: p₃ :: f0)
        = (fields.drop 8).foldlM (levelField int) pen >>= fun pen =>
          penChars int fields 0 VPen.empty (pens ++ [pen]) f0 := by
  let pen : VPen := if p₁ = 'a' ∨ p₁ = 'A' then
    { VPen.empty with type := some agentTypeNone, kind := some agentKindNone } else VPen.empty
  have hpen : pen.type = if p₁ = 'a' ∨ p₁ = 'A' then some agentTypeNone else none := by
    show VPen.type (if _ then _ else _) = _
    rw [apply_ite VPen.type]
    rfl
  exact ⟨{ penLetter pen p₂ with state := some (if p₃ = '0' then 1 else 0), level := some 0 },
    penLetter_type pen p₁ p₂ hpen, rfl⟩

theorem penChars_iff (fields : List (List Char)) {f0 : List Char} (h : f0.length = 8) :
    Succeeds (penChars int fields 0 VPen.empty [] f0) ↔ ∀ f ∈ fields.drop 8,
      LevelOk int (penType (f0.getD 1 '$') (f0.getD 2 '$')) f ∧
        LevelOk int (penType (f0.getD 5 '$') (f0.getD 6 '$')) f := by
  obtain ⟨p₀, p₁, p₂, p₃, p₄, p₅, p₆, p₇, rfl⟩ : ∃ p₀ p₁ p₂ p₃ p₄ p₅ p₆ p₇,
      f0 = [p₀, p₁, p₂, p₃, p₄, p₅, p₆, p₇] := by
    match f0, h with
    | [p₀, p₁, p₂, p₃, p₄, p₅, p₆, p₇], _ => exact ⟨p₀, p₁, p₂, p₃, p₄, p₅, p₆, p₇, rfl⟩
  obtain ⟨pen, hpen, hfirst⟩ := penChars_pen int fields p₀ p₁ p₂ p₃ [] [p₄, p₅, p₆, p₇]
  rw [hfirst, forall₂_and]
  refine Iff.trans ?_ (and_congr_left' (levelFields_iff hpen))
  refine succeeds_bind fun pen₁ _ => ?_
  obtain ⟨pen', hpen', hsecond⟩ := penChars_pen int fields p₄ p₅ p₆ p₇ [pen₁] []
  rw [List.nil_append, hsecond]
  refine Iff.trans ?_ (levelFields_iff hpen')
  exact (succeeds_bind fun _ _ => iff_of_true (succeeds_ok _) trivial).trans (and_iff_left trivial)

theorem parseVStatus_iff (v : List Char) :
    Succeeds (parseVStatus int v) ↔ VStatusOk int v := by
  rw [parseVStatus, VStatusOk]
  refine (succeeds_bind fun _ _ => iff_of_true (succeeds_ok _) trivial).trans ?_
  rw [and_iff_left trivial, vstatusPens]
  by_cases hlen : ((v.splitOn ',').headD []).length = 8
  · rw [if_pos hlen, forall_prop_of_true hlen]
    exact penChars_iff _ hlen
  · rw [if_neg hlen]
    exact iff_of_true (succeeds_ok _) fun h => absurd h hlen

def Handled {α : Type} (x : Except Stop α) : Prop := x ≠ .error .assertion

theorem handled_ok {α : Type} (a : α) : Handled (.ok a : Except Stop α) := nofun

theorem handled_caughtAt {α : Type} (st : Status) (x : Option α) : Handled (caughtAt st x) := by
  cases x <;> exact nofun

theorem Handled.bind {α β : Type} {x : Except Stop α} {f : α → Except Stop β} (hx : Handled x)
    (hf : ∀ a, Handled (f a)) : Handled (x >>= f) := by
  cases x with
  | error e => exact fun h => hx (congrArg _ (Except.error.inj h))
  | ok a => exact hf a

theorem handled_bind_iff {α β : Type} {x : Except Stop α} {f : α → Except Stop β}
    (hf : ∀ a, Handled (f a)) : Handled (x >>= f) ↔ Handled x := by
  refine ⟨fun h hx => h ?_, fun hx => hx.bind hf⟩
  rw [hx]
  rfl

theorem handled_statusByteAt (st : Status) (s1 : List Nat) (revision : Nat) :
    Handled (statusByteAt st s1 revision) := by
  refine (handled_caughtAt _ _).bind fun high => ?_
  by_cases h : high <<< 4 ≠ 48
  · rw [if_pos h]
    exact (handled_caughtAt _ _).bind fun _ => handled_ok _
  · rw [if_neg h]
    exact handled_ok _

theorem handled_penSupply (st : Status) (z1s : List Char) (z1 : List Nat) (d : Nat) :
    Handled (penSupply st z1s z1 d) := by
  rw [penSupply]
  split
  · exact handled_ok _
  · cases supplyAt z1s z1 d <;> exact (by rintro ⟨⟩)

theorem handled_penLoop (trueDivision : Bool) (s z1s : List Char) (z1 : List Nat)
    (penDataSize numPens k index c d : Nat) (st : Status) :
    Handled (penLoop trueDivision s z1s z1 penDataSize numPens k index c d st) := by
  induction k generalizing index c d st with
  | zero => exact handled_ok _
  | succ k ih =>
    rw [penLoop]
    refine (handled_caughtAt _ _).bind fun info => ?_
    exact (handled_penSupply st z1s z1 d).bind fun supply => ih _ _ _ _

theorem handled_header_iff (s1 : List Nat) :
    Handled (header s1) ↔ ∀ revision, s1[1]? = some revision → revision ≤ 4 := by
  rw [header]
  cases hrevision : s1[1]? with
  | none => exact iff_of_true (by rintro ⟨⟩) (by rintro _ ⟨⟩)
  | some revision =>
    by_cases hknown : 4 < revision
    · refine iff_of_false (fun h => h ?_) fun h => absurd (h revision rfl) (Nat.not_le.mpr hknown)
      simp only [caughtAt, bind, Except.bind, if_pos hknown]
      rfl
    · refine iff_of_true ?_ fun _ h => Option.some.inj h ▸ Nat.le_of_not_lt hknown
      show Handled (if 4 < revision then _ else _)
      rw [if_neg hknown]
      iterate 8 refine (handled_caughtAt _ _).bind fun _ => ?_
      exact (handled_statusByteAt _ _ _).bind fun _ => handled_ok _

theorem parseSStatus_isSome_iff (trueDivision : Bool) (s z : List Char) :
    (parseSStatus trueDivision s z).isSome ↔ SStatusOk s z := by
  have hsome : (parseSStatus trueDivision s z).isSome ↔ Handled (parseBody trueDivision s z) := by
    rw [parseSStatus]
    cases parseBody trueDivision s z with
    | ok st => exact iff_of_true rfl (handled_ok st)
    | error e =>
      cases e with
      | caught st => exact iff_of_true rfl (by rintro ⟨⟩)
      | assertion => exact iff_of_false Bool.false_ne_true fun h => h rfl
  rw [hsome, parseBody, SStatusOk]
  cases zDigits z with
  | none => exact iff_of_true (by rintro ⟨⟩) fun _ _ h => absurd h Bool.false_ne_true
  | some zs =>
    cases s.mapM ofHex with
    | none => exact iff_of_true (by rintro ⟨⟩) (by rintro _ _ _ ⟨⟩)
    | some s1 =>
      have hpens (st : Status) : Handled (caughtAt st s1[numPenPos (st.revision.getD 0)]? >>=
          fun numPens => penLoop trueDivision s zs.1 zs.2 (penDataSize (st.revision.getD 0)) numPens
            numPens 0 (numPenPos (st.revision.getD 0) + 1) 0 st) :=
        (handled_caughtAt _ _).bind fun _ => handled_penLoop _ _ _ _ _ _ _ _ _ _ _
      refine ((handled_bind_iff hpens).trans (handled_header_iff s1)).trans ?_
      constructor
      · intro h digits revision _ hdigits
        exact Option.some.inj hdigits ▸ h revision
      · intro h revision hrevision
        exact h s1 revision rfl rfl hrevision

/-- **A status is returned**, whatever a device sends, exactly if none of the fields that are parsed
has one of the flaws that are not handled. -/
theorem parseStatus_returns_iff (trueDivision : Bool) (int : List Char → Option Int)
    (d : DeviceID) : (∃ st, parseStatus trueDivision int d = .ok st) ↔ StatusOk int d := by
  rw [StatusOk, parseStatus]
  cases d.vstatus with
  | some v =>
    show (∃ st, (parseVStatus int v).map StatusBlock.v = .ok st) ↔ VStatusOk int v
    rw [← parseVStatus_iff]
    cases parseVStatus int v with
    | error e => exact iff_of_false nofun (not_succeeds_error e)
    | ok st => exact iff_of_true ⟨_, rfl⟩ (succeeds_ok st)
  | none =>
    cases d.s with
    | none => exact iff_of_true ⟨_, rfl⟩ trivial
    | some s =>
      show _ ↔ SStatusOk s (d.z.getD [])
      rw [← parseSStatus_isSome_iff trueDivision]
      dsimp only
      cases parseSStatus trueDivision s (d.z.getD []) with
      | none => exact iff_of_false nofun Bool.false_ne_true
      | some st => exact iff_of_true ⟨_, rfl⟩ rfl

/-- A revision that is not known is an assertion that fails. -/
theorem revision_five_raises :
    ¬ ∃ st, parseStatus true (fun _ => none) ⟨none, some ['0', '5'], none⟩ = .ok st := by
  have hraise : parseStatus true (fun _ => none) ⟨none, some ['0', '5'], none⟩
      = .error .assertionError := rfl
  rw [hraise]
  exact nofun

end Parsed

end Hplip.Base.SStatus
