import Mathlib
import Hplip.Base.ParseDeviceUri
import Hplip.Lib.PyText

/-!
# The S-field of a device id (status.py)

A printer tells its state in hexadecimal digits: one for each door and tray, two for a status code,
and four or eight for each pen, where the revision of the format says at which places. A second
field has more about the supplies in the pens.

An exception ends the parsing with what there is. The division of Python 2 and that of Python 3 are
told apart by a parameter. A truth value is 0 or 1.
-/

namespace Hplip.Base.SStatus

/-! ## The code -/

/-- `int(x, 16)`, of one character; the decimal digits are those of all scripts. -/
def ofHex (c : Char) : Option Nat :=
  if '0' ≤ c ∧ c ≤ '9' then some (c.toNat - '0'.toNat)
  else if 'a' ≤ c ∧ c ≤ 'f' then some (c.toNat - 'a'.toNat + 10)
  else if 'A' ≤ c ∧ c ≤ 'F' then some (c.toNat - 'A'.toNat + 10)
  else PyText.digit c

def ofDigits (ds : List Nat) : Nat := ds.foldl (fun n d => 16 * n + d) 0

/-- `int(s, 16)`, of digits. -/
def intHex (s : List Char) : Option Nat :=
  if s = [] then none else (s.mapM ofHex).map ofDigits

structure Supply where
  dvc : Nat
  virgin : Nat
  hpInk : Nat
  known : Nat
  ack : Nat

structure Agent where
  index : Nat
  kind : Nat
  type : Nat
  id : Nat
  levelTrigger : Nat
  health : Nat
  level : Nat
  supply : Option Supply

structure Status where
  revision : Option Nat
  agents : List Agent
  topDoor : Nat
  statusCode : Nat
  supplyDoor : Nat
  duplexer : Nat
  photoTray : Nat
  inTray1 : Nat
  inTray2 : Nat
  mediaPath : Nat

/-- Nothing is present, and the code is `STATUS_UNKNOWN`. -/
def Status.unknown : Status := ⟨none, [], 0, 0, 0, 0, 0, 0, 0, 0⟩

/-- How the parsing ends before its time: with what there is, or with an `AssertionError`. -/
inductive Stop where
  | caught (st : Status)
  | assertion

/-- A value, or an `IndexError` or `ValueError`. -/
def caughtAt {α : Type} (st : Status) : Option α → Except Stop α
  | some a => .ok a
  | none => .error (.caught st)

abbrev statusPrinterBase : Nat := 1000

def numPenPos (revision : Nat) : Nat := [16, 16, 16, 18, 22].getD revision 0

def penDataSize (revision : Nat) : Nat := [8, 8, 4, 8, 8].getD revision 0

def statusPos (revision : Nat) : Nat := [14, 14, 14, 16, 20].getD revision 0

/-- `REVISION_2_TYPE_MAP`: none, and black, cyan, magenta and yellow twice. -/
def revision2Type (colour : Nat) : Nat := [0, 1, 4, 5, 6, 1, 4, 5, 6].getD colour 0

/-- `bool`. -/
def flag (n : Nat) : Nat := if n = 0 then 0 else 1

/-- `bool(x & present) + x & 0x1`, where the sum is taken first. -/
def doorValue (present x : Nat) : Nat := (flag (x &&& present) + x) &&& 1

/-- The fields of `z` with the supplies: the last one counts, but all have to be digits. -/
def zDigits (z : List Char) : Option (List Char × List Nat) :=
  if z = [] then some ([], [])
  else (z.splitOn ',').foldlM (fun acc f =>
    if 2 < f.length ∧ f.take 2 = ['0', '5'] then ((f.drop 2).mapM ofHex).map fun ds => (f.drop 2, ds)
    else some acc) ([], [])

def statusByteAt (st : Status) (s1 : List Nat) (revision : Nat) : Except Stop Nat := do
  let high ← caughtAt st s1[statusPos revision]?
  if high <<< 4 ≠ 48 then
    let low ← caughtAt st s1[statusPos revision + 1]?
    pure (high <<< 4 + low)
  else pure (high <<< 4)

def header (s1 : List Nat) : Except Stop Status := do
  let st := Status.unknown
  let revision ← caughtAt st s1[1]?
  let st := { st with revision := some revision }
  if 4 < revision then
    throw .assertion
  let x ← caughtAt st s1[2]?
  let st := { st with topDoor := doorValue 0x8 x }
  let x ← caughtAt st s1[3]?
  let st := { st with supplyDoor := doorValue 0x8 x }
  let x ← caughtAt st s1[4]?
  let st := { st with duplexer := doorValue 0xc x }
  let x ← caughtAt st s1[5]?
  let st := { st with photoTray := doorValue 0x8 x }
  let x ← caughtAt st s1[6]?
  let st := { st with inTray1 := if revision = 2 then doorValue 0x8 x else flag (x &&& 0x8) }
  let x ← caughtAt st s1[7]?
  let st := { st with inTray2 := if revision = 2 then doorValue 0x8 x else flag (x &&& 0x8) }
  let x ← caughtAt st s1[8]?
  let y ← caughtAt st s1[18]?
  let st := { st with mediaPath := flag (x &&& 0x8) + (x &&& 0x1) + flag (y &&& 0x2) <<< 1 }
  let statusByte ← statusByteAt st s1 revision
  pure { st with statusCode := statusByte + statusPrinterBase }

def shortAgent (trueDivision : Bool) (numPens index info : Nat) : Agent where
  index := index
  type := revision2Type ((info &&& 0xf000) >>> 12)
  kind := if (if trueDivision then 2 * index < numPens else index < numPens / 2) then 1 else 2
  levelTrigger := (info &&& 0x0e00) >>> 9
  health := (info &&& 0x0180) >>> 7
  level := info &&& 0x007f
  id := 0x1f
  supply := none

def longAgent (index info : Nat) : Agent where
  index := index
  kind := flag (info &&& 0x80000000) + flag (info &&& 0x40000000) <<< 1
  type := (info &&& 0x3f000000) >>> 24
  id := (info &&& 0xf80000) >>> 19
  levelTrigger := (info &&& 0x70000) >>> 16
  health := (info &&& 0xc000) >>> 14
  level := info &&& 0xff
  supply := none

/-- The supply at `d`. An `IndexError` makes it all zero, a `ValueError` is not looked for. -/
def supplyAt (z1s : List Char) (z1 : List Nat) (d : Nat) : Option Supply :=
  match intHex ((z1s.drop (d + 1)).take 4) with
  | none => none
  | some dvc =>
    match z1[d + 5]? with
    | some x => some ⟨dvc, flag (x &&& 0x8), flag (x &&& 0x4), flag (x &&& 0x2), flag (x &&& 0x1)⟩
    | none => some ⟨0, 0, 0, 0, 0⟩

def penSupply (st : Status) (z1s : List Char) (z1 : List Nat) (d : Nat) :
    Except Stop (Option Supply) :=
  if z1 = [] then .ok none
  else (caughtAt st (supplyAt z1s z1 d)).map some

/-- The loop over the pens: `k` are left, the next one is `index` and starts at `c`, its supply at
`d`. -/
def penLoop (trueDivision : Bool) (s z1s : List Char) (z1 : List Nat) (penDataSize numPens : Nat) :
    (k index c d : Nat) → Status → Except Stop Status
  | 0, _, _, _, st => .ok st
  | k + 1, index, c, d, st => do
    let info ← caughtAt st (intHex ((s.drop c).take penDataSize))
    let pen := if penDataSize = 4 then shortAgent trueDivision numPens index info
      else longAgent index info
    let supply ← penSupply st z1s z1 d
    penLoop trueDivision s z1s z1 penDataSize numPens k (index + 1) (c + penDataSize) (d + 6)
      { st with agents := st.agents ++ [{ pen with supply := supply }] }

/-- The part of `parseSStatus` under `try`. -/
def parseBody (trueDivision : Bool) (s z : List Char) : Except Stop Status := do
  let (z1s, z1) ← caughtAt Status.unknown (zDigits z)
  let s1 ← caughtAt Status.unknown (s.mapM ofHex)
  let st ← header s1
  let revision := st.revision.getD 0
  let numPens ← caughtAt st s1[numPenPos revision]?
  penLoop trueDivision s z1s z1 (penDataSize revision) numPens numPens 0 (numPenPos revision + 1) 0 st

/-- `parseSStatus`; `none` is an `AssertionError`. -/
def parseSStatus (trueDivision : Bool) (s z : List Char) : Option Status :=
  match parseBody trueDivision s z with
  | .ok st => some st
  | .error (.caught st) => some st
  | .error .assertion => none

/-! ## Reports -/

/-- A pen: with all its data, or with a colour and where it stands in their place. -/
inductive Pen where
  | long (kind : Fin 4) (type : Fin 64) (id : Fin 32) (trigger : Fin 8) (health : Fin 4)
      (spare : Fin 64) (level : Fin 256)
  | short (colour : Fin 16) (trigger : Fin 8) (health : Fin 4) (level : Fin 128)

namespace Pen

def size : Pen → Nat
  | long .. => 8
  | short .. => 4

def word : Pen → Nat
  | long kind type id trigger health spare level =>
    kind.val % 2 * 2 ^ 31 + kind.val / 2 * 2 ^ 30 + type.val * 2 ^ 24 + id.val * 2 ^ 19
      + trigger.val * 2 ^ 16 + health.val * 2 ^ 14 + spare.val * 2 ^ 8 + level.val
  | short colour trigger health level =>
    colour.val * 2 ^ 12 + trigger.val * 2 ^ 9 + health.val * 2 ^ 7 + level.val

/-- What there is to be read of a pen. In short, the first half of the pens are heads (where it is
rounded down, or not) and the others are supplies. -/
def agent (trueDivision : Bool) (numPens index : Nat) : Pen → Agent
  | long kind type id trigger health _ level =>
    ⟨index, kind, type, id, trigger, health, level, none⟩
  | short colour trigger health level =>
    ⟨index, if (if trueDivision then 2 * index < numPens else index < numPens / 2) then 1 else 2,
      revision2Type colour, 0x1f, trigger, health, level, none⟩

end Pen

/-- The `k` last hexadecimal digits of a number. -/
def hexDigits : Nat → Nat → List Nat
  | 0, _ => []
  | k + 1, n => hexDigits k (n / 16) ++ [n % 16]

structure Report where
  revision : Nat
  lead : Nat
  topDoor : Nat
  supplyDoor : Nat
  duplexer : Nat
  photoTray : Nat
  inTray1 : Nat
  inTray2 : Nat
  mediaPath : Nat
  filler : List Nat
  code : Nat
  pens : List Pen
  rest : List Nat
  revision_le : revision ≤ 4
  filler_length : filler.length = statusPos revision - 9
  size_eq : ∀ p ∈ pens, p.size = penDataSize revision

def Report.digits (r : Report) : List Nat :=
  [r.lead, r.revision, r.topDoor, r.supplyDoor, r.duplexer, r.photoTray, r.inTray1, r.inTray2,
    r.mediaPath] ++ (r.filler ++ r.code / 16 :: r.code % 16 :: r.pens.length ::
      (r.pens.flatMap (fun p => hexDigits p.size p.word) ++ r.rest))

def Report.agents (trueDivision : Bool) (r : Report) : List Agent :=
  r.pens.mapIdx fun i p => p.agent trueDivision r.pens.length i

/-- A text that has these digits, in small or capital letters. -/
def Spells (s : List Char) (ds : List Nat) : Prop := s.mapM ofHex = some ds

def Status.pens (st : Status) : List Agent := st.agents.map fun a => { a with supply := none }

def nibbleState (x : Nat) : Nat := if x / 8 % 2 = 0 then 0 else if x % 2 = 0 then 1 else 2

structure AsDocumented (trueDivision : Bool) (r : Report) (st : Status) : Prop where
  pens : st.pens = r.agents trueDivision
  statusCode : st.statusCode = statusPrinterBase + r.code
  topDoor : st.topDoor = nibbleState r.topDoor
  supplyDoor : st.supplyDoor = nibbleState r.supplyDoor
  duplexer : st.duplexer = nibbleState r.duplexer
  photoTray : st.photoTray = nibbleState r.photoTray
  inTray1 : r.revision = 2 → st.inTray1 = nibbleState r.inTray1
  inTray2 : r.revision = 2 → st.inTray2 = nibbleState r.inTray2

def ReadsDoor (x v : Nat) : Prop := x % 2 = 0 → v = nibbleState x

instance (x v : Nat) : Decidable (ReadsDoor x v) := inferInstanceAs (Decidable (_ → _))

/-- **What is read of the states in a report**: the codes from 0x30 to 0x3f are all taken for 0x30,
two bits say that there is a duplexer, and nothing is said of what is open. -/
structure ReadsHeader (r : Report) (st : Status) : Prop where
  statusCode : st.statusCode = statusPrinterBase + if r.code / 16 = 3 then 0x30 else r.code
  topDoor : ReadsDoor r.topDoor st.topDoor
  supplyDoor : ReadsDoor r.supplyDoor st.supplyDoor
  duplexer : r.duplexer % 2 = 0 → st.duplexer = if r.duplexer / 4 % 4 = 0 then 0 else 1
  photoTray : ReadsDoor r.photoTray st.photoTray
  inTray1 : r.revision = 2 → ReadsDoor r.inTray1 st.inTray1
  inTray2 : r.revision = 2 → ReadsDoor r.inTray2 st.inTray2

/-- A field of supplies that has a digit for every pen, or is not there. -/
def ZReads (n : Nat) (z : List Char) : Prop :=
  ∃ z1s z1, zDigits z = some (z1s, z1) ∧ (z1 = [] ∨ 6 * n < z1.length + 5)

/-! ## Digits -/

theorem spells_iff {s : List Char} {ds : List Nat} :
    Spells s ds ↔ s.map ofHex = ds.map some := by
  rw [Spells]
  induction s generalizing ds with
  | nil => cases ds <;> simp
  | cons c s ih =>
    rw [List.mapM_cons, List.map_cons]
    cases hc : ofHex c with
    | none => cases ds <;> simp
    | some d =>
      cases ds with
      | nil => cases s.mapM ofHex <;> simp
      | cons e ds =>
        have hrest := @ih ds
        cases hs : s.mapM ofHex with
        | none => simp [hs] at hrest ⊢; exact fun _ => hrest
        | some es => simp [hs] at hrest ⊢; simp [hrest]

theorem ofHex_lt {c : Char} {d : Nat} (h : ofHex c = some d) : d < 16 := by
  have hle : ∀ y : Char, c ≤ y → c.toNat ≤ y.toNat := fun y h => h
  rw [ofHex] at h
  split_ifs at h with hdigit hsmall hcapital
  · have hnine : c.toNat ≤ 57 := hle '9' hdigit.2
    have hzero : '0'.toNat = 48 := rfl
    cases h
    lia
  · have hf : c.toNat ≤ 102 := hle 'f' hsmall.2
    have ha : 'a'.toNat = 97 := rfl
    cases h
    lia
  · have hf : c.toNat ≤ 70 := hle 'F' hcapital.2
    have ha : 'A'.toNat = 65 := rfl
    cases h
    lia
  · exact (PyText.digit_lt h).trans (by decide)

theorem Spells.lt {s : List Char} {ds : List Nat} (h : Spells s ds) : ∀ d ∈ ds, d < 16 := by
  intro d hd
  have hmem : some d ∈ s.map ofHex := by
    rw [spells_iff.mp h]
    exact List.mem_map_of_mem hd
  obtain ⟨c, -, hc⟩ := List.mem_map.mp hmem
  exact ofHex_lt hc

theorem Spells.slice {s : List Char} {ds : List Nat} (h : Spells s ds) (c k : Nat) :
    Spells ((s.drop c).take k) ((ds.drop c).take k) := by
  rw [spells_iff] at h ⊢
  rw [List.map_take, List.map_drop, h, List.map_take, List.map_drop]

theorem Spells.intHex {s : List Char} {ds : List Nat} (h : Spells s ds) (hne : ds ≠ []) :
    intHex s = some (ofDigits ds) := by
  have hs : s ≠ [] := by
    rintro rfl
    exact hne (by simpa [Spells] using h.symm)
  rw [SStatus.intHex, if_neg hs, show s.mapM ofHex = some ds from h]
  rfl

theorem hexDigits_length (k n : Nat) : (hexDigits k n).length = k := by
  induction k generalizing n with
  | zero => rfl
  | succ k ih => rw [hexDigits, List.length_append, ih, List.length_singleton]

theorem ofDigits_hexDigits (k n : Nat) : ofDigits (hexDigits k n) = n % 16 ^ k := by
  induction k generalizing n with
  | zero => rw [Nat.pow_zero, Nat.mod_one]; rfl
  | succ k ih =>
    have hlast : ofDigits (hexDigits k (n / 16) ++ [n % 16])
        = 16 * ofDigits (hexDigits k (n / 16)) + n % 16 := by
      rw [ofDigits, List.foldl_append]
      rfl
    rw [hexDigits, hlast, ih, Nat.pow_succ']
    exact (Nat.mod_mul).symm ▸ Nat.add_comm _ _

/-! ## Bits -/

theorem field_eq (n lo w : Nat) : (n &&& (2 ^ w - 1) <<< lo) >>> lo = n / 2 ^ lo % 2 ^ w := by
  rw [Nat.shiftRight_and_distrib, Nat.shiftLeft_shiftRight, Nat.and_two_pow_sub_one_eq_mod,
    Nat.shiftRight_eq_div_pow]

theorem flag_bit (n k : Nat) : flag (n &&& 2 ^ k) = n / 2 ^ k % 2 := by
  rw [Nat.and_two_pow, ← Nat.toNat_testBit]
  cases n.testBit k <;> simp [flag]

/-- **A door** that is not open. -/
theorem doorValue_closed : ∀ x < 16, ReadsDoor x (doorValue 0x8 x) := by
  decide

theorem doorValue_duplexer : ∀ x < 16, x % 2 = 0 →
    doorValue 0xc x = if x / 4 % 4 = 0 then 0 else 1 := by
  decide

theorem field_split {n m w a b : Nat} (h : n / 2 ^ m = a * 2 ^ w + b) (hb : b < 2 ^ w) :
    n / 2 ^ m % 2 ^ w = b ∧ n / 2 ^ (m + w) = a := by
  have hpos : 0 < 2 ^ w := Nat.two_pow_pos w
  constructor
  · rw [h, Nat.add_comm, Nat.add_mul_mod_self_right, Nat.mod_eq_of_lt hb]
  · rw [Nat.pow_add, ← Nat.div_div_eq_div_mul, h, Nat.add_comm, Nat.add_mul_div_right _ _ hpos,
      Nat.div_eq_of_lt hb, Nat.zero_add]

/-- **A pen** in eight digits is read as it is. -/
theorem longAgent_word (trueDivision : Bool) (numPens index : Nat) (kind : Fin 4) (type : Fin 64)
    (id : Fin 32) (trigger : Fin 8) (health : Fin 4) (spare : Fin 64) (level : Fin 256) :
    longAgent index (Pen.long kind type id trigger health spare level).word
      = (Pen.long kind type id trigger health spare level).agent trueDivision numPens index := by
  generalize hw : (Pen.long kind type id trigger health spare level).word = w
  rw [Pen.word] at hw
  have hlow : flag (w &&& 0x80000000) = w / 2 ^ 31 % 2 := flag_bit w 31
  have hhigh : flag (w &&& 0x40000000) = w / 2 ^ 30 % 2 ^ 1 := flag_bit w 30
  have htype : (w &&& 0x3f000000) >>> 24 = w / 2 ^ 24 % 2 ^ 6 := field_eq w 24 6
  have hid : (w &&& 0xf80000) >>> 19 = w / 2 ^ 19 % 2 ^ 5 := field_eq w 19 5
  have htrigger : (w &&& 0x70000) >>> 16 = w / 2 ^ 16 % 2 ^ 3 := field_eq w 16 3
  have hhealth : (w &&& 0xc000) >>> 14 = w / 2 ^ 14 % 2 ^ 2 := field_eq w 14 2
  have hlevel : w &&& 0xff = w / 2 ^ 0 % 2 ^ 8 := by
    rw [Nat.pow_zero, Nat.div_one]
    exact Nat.and_two_pow_sub_one_eq_mod w 8
  have hpacked : w / 2 ^ 0 = (((((((kind.val % 2) * 2 ^ 1 + kind.val / 2) * 2 ^ 6 + type) * 2 ^ 5
      + id) * 2 ^ 3 + trigger) * 2 ^ 2 + health) * 2 ^ 6 + spare) * 2 ^ 8 + level := by
    rw [Nat.pow_zero, Nat.div_one]
    lia
  -- field by field, from the lowest one
  obtain ⟨hl, hrest⟩ := field_split hpacked level.isLt
  obtain ⟨-, hrest⟩ := field_split hrest spare.isLt
  obtain ⟨hh, hrest⟩ := field_split hrest health.isLt
  obtain ⟨ht, hrest⟩ := field_split hrest trigger.isLt
  obtain ⟨hi, hrest⟩ := field_split hrest id.isLt
  obtain ⟨hc, hrest⟩ := field_split hrest type.isLt
  obtain ⟨hsecond, hfirst⟩ := field_split hrest (Nat.div_lt_of_lt_mul kind.isLt)
  have hkind : ∀ k < 4, k % 2 % 2 + k / 2 * 2 ^ 1 = k := by decide
  rw [longAgent, hlow, hhigh, htype, hid, htrigger, hhealth, hlevel, hfirst, hsecond, hc, hi, ht, hh,
    hl, Nat.shiftLeft_eq, hkind kind kind.isLt, Pen.agent]

theorem shortAgent_word (trueDivision : Bool) (numPens index : Nat) (colour : Fin 16)
    (trigger : Fin 8) (health : Fin 4) (level : Fin 128) :
    shortAgent trueDivision numPens index (Pen.short colour trigger health level).word
      = (Pen.short colour trigger health level).agent trueDivision numPens index := by
  generalize hw : (Pen.short colour trigger health level).word = w
  rw [Pen.word] at hw
  have hcolour : (w &&& 0xf000) >>> 12 = w / 2 ^ 12 % 2 ^ 4 := field_eq w 12 4
  have htrigger : (w &&& 0x0e00) >>> 9 = w / 2 ^ 9 % 2 ^ 3 := field_eq w 9 3
  have hhealth : (w &&& 0x0180) >>> 7 = w / 2 ^ 7 % 2 ^ 2 := field_eq w 7 2
  have hlevel : w &&& 0x007f = w / 2 ^ 0 % 2 ^ 7 := by
    rw [Nat.pow_zero, Nat.div_one]
    exact Nat.and_two_pow_sub_one_eq_mod w 7
  have hpacked : w / 2 ^ 0 = ((colour * 2 ^ 3 + trigger) * 2 ^ 2 + health) * 2 ^ 7 + level := by
    rw [Nat.pow_zero, Nat.div_one]
    lia
  obtain ⟨hl, hrest⟩ := field_split hpacked level.isLt
  obtain ⟨hh, hrest⟩ := field_split hrest health.isLt
  obtain ⟨ht, hrest⟩ := field_split hrest trigger.isLt
  have hc : w / 2 ^ 12 % 2 ^ 4 = colour := by
    rw [hrest]
    exact Nat.mod_eq_of_lt colour.isLt
  rw [shortAgent, hcolour, htrigger, hhealth, hlevel, hc, ht, hh, hl, Pen.agent]

namespace Pen

theorem word_lt (p : Pen) : p.word < 16 ^ p.size := by
  cases p with
  | long kind type id trigger health spare level =>
    rw [word, size]
    lia
  | short colour trigger health level =>
    rw [word, size]
    lia

def digits (p : Pen) : List Nat := hexDigits p.size p.word

theorem digits_length (p : Pen) : p.digits.length = p.size := hexDigits_length _ _

theorem ofDigits_digits (p : Pen) : ofDigits p.digits = p.word := by
  rw [digits, ofDigits_hexDigits, Nat.mod_eq_of_lt p.word_lt]

/-- **A pen** is read as it is. -/
theorem agent_word (trueDivision : Bool) (numPens index : Nat) (p : Pen) :
    (if p.size = 4 then shortAgent trueDivision numPens index p.word else longAgent index p.word)
      = p.agent trueDivision numPens index := by
  cases p with
  | long => exact longAgent_word trueDivision numPens index ..
  | short => exact shortAgent_word trueDivision numPens index ..

end Pen

/-! ## Pens -/

theorem zDigits_spells {z z1s : List Char} {z1 : List Nat} (h : zDigits z = some (z1s, z1)) :
    Spells z1s z1 := by
  rw [zDigits] at h
  split at h
  · cases h
    rfl
  · suffices hfold : ∀ (fs : List (List Char)) (acc : List Char × List Nat), Spells acc.1 acc.2 →
        fs.foldlM (fun acc f => if 2 < f.length ∧ f.take 2 = ['0', '5'] then
          ((f.drop 2).mapM ofHex).map fun ds => (f.drop 2, ds) else some acc) acc = some (z1s, z1) →
        Spells z1s z1 from hfold _ ([], []) (show Spells [] [] from rfl) h
    intro fs
    induction fs with
    | nil =>
      intro acc hacc h
      cases h
      exact hacc
    | cons f fs ih =>
      intro acc hacc h
      rw [List.foldlM_cons] at h
      split at h
      · obtain ⟨acc', hacc', h⟩ := Option.bind_eq_some_iff.mp h
        obtain ⟨ds, hds, rfl⟩ := Option.map_eq_some_iff.mp hacc'
        exact ih (f.drop 2, ds) (show Spells (f.drop 2) ds from hds) h
      · exact ih acc hacc h

theorem supplyAt_isSome {z1s : List Char} {z1 : List Nat} (h : Spells z1s z1) {d : Nat}
    (hd : d + 1 < z1.length) : ∃ supply, supplyAt z1s z1 d = some supply := by
  have hne : (z1.drop (d + 1)).take 4 ≠ [] := by
    rw [← List.length_pos_iff, List.length_take, List.length_drop]
    lia
  rw [supplyAt, (h.slice (d + 1) 4).intHex hne]
  cases z1[d + 5]? <;> exact ⟨_, rfl⟩

theorem penSupply_ok (st : Status) {z1s : List Char} {z1 : List Nat} (h : Spells z1s z1) {d : Nat}
    (hd : z1 = [] ∨ d + 1 < z1.length) : ∃ supply, penSupply st z1s z1 d = .ok supply := by
  by_cases hnil : z1 = []
  · exact ⟨none, if_pos hnil⟩
  · obtain ⟨supply, hsome⟩ := supplyAt_isSome h (hd.resolve_left hnil)
    exact ⟨some supply, by rw [penSupply, if_neg hnil, hsome]; rfl⟩

theorem penLoop_frame (trueDivision : Bool) (s z1s : List Char) (z1 : List Nat) (size numPens : Nat)
    (k index c d : Nat) (st : Status) : ∃ as,
      penLoop trueDivision s z1s z1 size numPens k index c d st = .ok { st with agents := as } ∨
      penLoop trueDivision s z1s z1 size numPens k index c d st
        = .error (.caught { st with agents := as }) := by
  induction k generalizing index c d st with
  | zero => exact ⟨st.agents, .inl rfl⟩
  | succ k ih =>
    rw [penLoop]
    cases intHex ((s.drop c).take size) with
    | none => exact ⟨st.agents, .inr rfl⟩
    | some info =>
      simp only [caughtAt, bind, Except.bind]
      rcases hsupply : penSupply st z1s z1 d with stop | supply
      · refine ⟨st.agents, .inr ?_⟩
        rw [penSupply] at hsupply
        split at hsupply
        · cases hsupply
        · cases hat : supplyAt z1s z1 d with
          | none => rw [hat] at hsupply; cases hsupply; rfl
          | some supply => rw [hat] at hsupply; cases hsupply
      · exact ih (index + 1) (c + size) (d + 6) _

/-- **The loop** reads all pens, if no supply is missing. -/
theorem penLoop_decodes {trueDivision : Bool} {s z1s : List Char} {ds z1 : List Nat}
    {size numPens : Nat} (hs : Spells s ds) (hz : Spells z1s z1) {ps : List Pen} {rest : List Nat}
    (hsize : ∀ p ∈ ps, p.size = size) {index c d : Nat} (st : Status)
    (hds : ds.drop c = ps.flatMap Pen.digits ++ rest)
    (hlong : z1 = [] ∨ d + 6 * ps.length < z1.length + 5) :
    ∃ as, penLoop trueDivision s z1s z1 size numPens ps.length index c d st
        = .ok { st with agents := st.agents ++ as } ∧
      as.map (fun a => { a with supply := none })
        = ps.mapIdx fun i p => p.agent trueDivision numPens (index + i) := by
  induction ps generalizing index c d st with
  | nil => exact ⟨[], by simp [penLoop], rfl⟩
  | cons p ps ih =>
    obtain ⟨hp, hrest⟩ := List.forall_mem_cons.mp hsize
    rw [List.flatMap_cons, List.append_assoc] at hds
    have hlength : p.digits.length = size := p.digits_length.trans hp
    have hpen : (ds.drop c).take size = p.digits := by rw [hds, List.take_left' hlength]
    have hne : p.digits ≠ [] := by
      rw [← List.length_pos_iff, p.digits_length]
      cases p <;> exact Nat.zero_lt_succ _
    have hinfo : intHex ((s.drop c).take size) = some p.word := by
      rw [(hs.slice c size).intHex (hpen ▸ hne), hpen, p.ofDigits_digits]
    have hnext : ds.drop (c + size) = ps.flatMap Pen.digits ++ rest := by
      rw [← List.drop_drop, hds, List.drop_left' hlength]
    have hagent : (if size = 4 then shortAgent trueDivision numPens index p.word
        else longAgent index p.word) = p.agent trueDivision numPens index :=
      hp ▸ p.agent_word trueDivision numPens index
    rw [List.length_cons] at hlong
    obtain ⟨supply, hsupply⟩ := penSupply_ok st hz (d := d) (hlong.imp_right fun h => by lia)
    obtain ⟨as, has, hmap⟩ := @ih hrest (index + 1) (c + size) (d + 6)
      { st with agents := st.agents ++ [{ p.agent trueDivision numPens index with supply := supply }] }
      hnext (hlong.imp_right fun h => by lia)
    refine ⟨{ p.agent trueDivision numPens index with supply := supply } :: as, ?_, ?_⟩
    · rw [List.length_cons, penLoop, hinfo]
      simp only [caughtAt, bind, Except.bind, hagent, hsupply]
      rw [has, List.append_assoc]
      rfl
    · have hfirst : { p.agent trueDivision numPens index with supply := none }
          = p.agent trueDivision numPens index := by cases p <;> rfl
      rw [List.map_cons, hmap, List.mapIdx_cons, hfirst]
      simp only [Nat.add_zero, Nat.add_assoc, Nat.add_comm 1]

/-! ## Reports -/

namespace Report

variable (r : Report)

theorem places : ∀ revision ≤ 4, 9 ≤ statusPos revision ∧
    numPenPos revision = statusPos revision + 2 := by
  decide

def front : List Nat :=
  [r.lead, r.revision, r.topDoor, r.supplyDoor, r.duplexer, r.photoTray, r.inTray1, r.inTray2,
    r.mediaPath] ++ r.filler

theorem front_length : r.front.length = statusPos r.revision := by
  have hplace := (places r.revision r.revision_le).1
  rw [front, List.length_append, r.filler_length]
  simp only [List.length_cons, List.length_nil]
  lia

theorem digits_eq : r.digits = r.front ++ r.code / 16 :: r.code % 16 :: r.pens.length ::
    (r.pens.flatMap Pen.digits ++ r.rest) := by
  rw [digits, front, List.append_assoc]
  rfl

theorem digits_code : r.digits[statusPos r.revision]? = some (r.code / 16) ∧
    r.digits[statusPos r.revision + 1]? = some (r.code % 16) ∧
    r.digits[numPenPos r.revision]? = some r.pens.length := by
  rw [(places r.revision r.revision_le).2, digits_eq, ← front_length]
  simp

theorem digits_pens : r.digits.drop (numPenPos r.revision + 1)
    = r.pens.flatMap Pen.digits ++ r.rest := by
  rw [(places r.revision r.revision_le).2, digits_eq, ← front_length,
    Nat.add_assoc, ← List.drop_drop, List.drop_left]
  rfl

theorem statusByteAt_digits (st : Status) : statusByteAt st r.digits r.revision
    = .ok (if r.code / 16 = 3 then 0x30 else r.code) := by
  obtain ⟨hhigh, hlow, -⟩ := r.digits_code
  rw [statusByteAt, hhigh, hlow]
  simp only [caughtAt, bind, Except.bind, pure, Except.pure, Nat.shiftLeft_eq]
  by_cases hcode : r.code / 16 = 3
  · simp [hcode]
  · have hne : r.code / 16 * 2 ^ 4 ≠ 48 := by lia
    have hall : r.code / 16 * 2 ^ 4 + r.code % 16 = r.code := by lia
    rw [if_pos hne, if_neg hcode, hall]

theorem header_digits (hlong : 19 ≤ r.digits.length) (hlt : ∀ d ∈ r.digits, d < 16) :
    ∃ st, header r.digits = .ok st ∧ st.revision = some r.revision ∧ st.agents = [] ∧
      ReadsHeader r st := by
  obtain ⟨y, hy⟩ : ∃ y, r.digits[18]? = some y := ⟨_, List.getElem?_eq_getElem hlong⟩
  have hrevision : ¬ 4 < r.revision := Nat.not_lt.mpr r.revision_le
  have h₁ : r.digits[1]? = some r.revision := rfl
  have h₂ : r.digits[2]? = some r.topDoor := rfl
  have h₃ : r.digits[3]? = some r.supplyDoor := rfl
  have h₄ : r.digits[4]? = some r.duplexer := rfl
  have h₅ : r.digits[5]? = some r.photoTray := rfl
  have h₆ : r.digits[6]? = some r.inTray1 := rfl
  have h₇ : r.digits[7]? = some r.inTray2 := rfl
  have h₈ : r.digits[8]? = some r.mediaPath := rfl
  have hdoor : ∀ {i x : Nat}, r.digits[i]? = some x → ReadsDoor x (doorValue 0x8 x) := fun hx =>
    doorValue_closed _ (hlt _ (List.mem_of_getElem? hx))
  simp only [header, h₁, h₂, h₃, h₄, h₅, h₆, h₇, h₈, hy, caughtAt, bind, Except.bind, pure,
    Except.pure, if_neg hrevision, statusByteAt_digits]
  have htray : ∀ {x y : Nat}, r.revision = 2 → ReadsDoor x (doorValue 0x8 x) →
      ReadsDoor x (if r.revision = 2 then doorValue 0x8 x else y) := fun h hx => by rwa [if_pos h]
  refine ⟨_, rfl, rfl, rfl, ?_⟩
  exact
    { statusCode := Nat.add_comm _ _
      topDoor := hdoor h₂
      supplyDoor := hdoor h₃
      duplexer := doorValue_duplexer _ (hlt _ (List.mem_of_getElem? h₄))
      photoTray := hdoor h₅
      inTray1 := fun h => htray h (hdoor h₆)
      inTray2 := fun h => htray h (hdoor h₇) }

end Report

theorem ReadsHeader.with_agents {r : Report} {st : Status} (h : ReadsHeader r st) (as : List Agent) :
    ReadsHeader r { st with agents := as } := by
  cases h
  constructor <;> assumption

theorem onePen_revision : 3 ≤ 4 := by decide

def onePen (code : Nat) : Report where
  revision := 3
  lead := 0
  topDoor := 8
  supplyDoor := 0
  duplexer := 0
  photoTray := 0
  inTray1 := 8
  inTray2 := 0
  mediaPath := 0
  filler := [0, 0, 0, 0, 0, 0, 0]
  code := code
  pens := [.long (Fin.last 3) 1 2 1 (Fin.last 3).rev 0 50]
  rest := []
  revision_le := onePen_revision
  filler_length := rfl
  size_eq p hp := by rw [List.mem_singleton.mp hp]; rfl

/-- `0380008000000000081c1110032`: the printer is at 0x08, and has black ink for half of the pages. -/
def halfFull : List Char :=
  ['0', '3', '8', '0', '0', '0', '8', '0', '0', '0', '0', '0', '0', '0', '0', '0', '0', '8', '1', 'c',
    '1', '1', '1', '0', '0', '3', '2']

/-- `0380008000000000351c1110032`: a status code that begins with 3. -/
def inkTooLow : List Char :=
  ['0', '3', '8', '0', '0', '0', '8', '0', '0', '0', '0', '0', '0', '0', '0', '0', '3', '5', '1', 'c',
    '1', '1', '1', '0', '0', '3', '2']

end Hplip.Base.SStatus
