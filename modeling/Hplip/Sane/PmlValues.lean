import Hplip.Lib.CInt
import Hplip.Lib.Machine
import Hplip.Lib.Slice

/-!
# The values of a PML object (pml.c)

An object keeps its values in a ring of two slots. A set takes the next slot before it looks at
the length of the value, and a value that is fetched from the device is set without looking at
whether that worked.

A `char` buffer is a function, and an `int` that is put together from bytes is its 32 bits.
-/

namespace Hplip.Sane.PmlValues

/-- `ERROR` and `OK`. -/
abbrev error : Int := 0
abbrev ok : Int := 1

abbrev pmlMaxValueLen : Int := 1023

abbrev pmlMaxOidValues : Nat := 2

/-- `struct PmlValue_s`. -/
structure PmlValue where
  type : Int
  len : Nat
  value : Nat → UInt8
  len_le : len ≤ pmlMaxValueLen

/-- `struct PmlObject_s`, without its links and its name. -/
structure PmlObject where
  indexOfLastValue : Fin pmlMaxOidValues
  numberOfValidValues : Nat
  value : Fin pmlMaxOidValues → PmlValue
  status : Int

def pmlGetLastValue (obj : PmlObject) : Option PmlValue :=
  if obj.numberOfValidValues = 0 then none else some (obj.value obj.indexOfLastValue)

/-- `PmlPrepareNextValue`; the value it returns is at `indexOfLastValue`. -/
def pmlPrepareNextValue (obj : PmlObject) : PmlObject :=
  { obj with
    indexOfLastValue := obj.indexOfLastValue + 1
    numberOfValidValues :=
      if obj.numberOfValidValues < pmlMaxOidValues then obj.numberOfValidValues + 1
      else obj.numberOfValidValues }

def PmlValue.fill (v : PmlValue) (type : Int) (bytes : List UInt8)
    (h : bytes.length ≤ pmlMaxValueLen) : PmlValue where
  type := type
  len := bytes.length
  value := blit v.value 0 (ofList (bytes ++ [0]) 0) (bytes.length + 1)
  len_le := h

/-- `PmlSetPrefixValue`, for a prefix and a value of the lengths `lenPrefix` and `lenValue`. -/
def pmlSetPrefixValue (obj : PmlObject) (type : Int) (pre : Nat → UInt8) (lenPrefix : Int)
    (value : Nat → UInt8) (lenValue : Int) : Int × PmlObject :=
  let obj := pmlPrepareNextValue obj
  if h : lenPrefix < 0 ∨ lenValue < 0 ∨ pmlMaxValueLen < lenPrefix + lenValue then (error, obj)
  else
    let v := (obj.value obj.indexOfLastValue).fill type
      (slice pre 0 lenPrefix.toNat ++ slice value 0 lenValue.toNat) (by
        rw [List.length_append, slice_length, slice_length]
        lia)
    (ok, { obj with value := Function.update obj.value obj.indexOfLastValue v })

def pmlSetValue (obj : PmlObject) (type : Int) (value : Nat → UInt8) (len : Int) :
    Int × PmlObject :=
  pmlSetPrefixValue obj type (fun _ => 0) 0 value len

/-- The bytes of an `int`, the highest one first and without the zeroes in front. -/
def integerBytes (value : UInt32) : List UInt8 :=
  [(value >>> 24).toUInt8, (value >>> 16).toUInt8, (value >>> 8).toUInt8, value.toUInt8].dropWhile
    (· = 0)

def pmlSetIntegerValue (obj : PmlObject) (type : Int) (value : UInt32) : Int × PmlObject :=
  -- of a zero the loop looks at the byte behind `buffer` too, which changes nothing
  pmlSetPrefixValue obj type (ofList (integerBytes value) 0) (integerBytes value).length
    (fun _ => 0) 0

/-- What a get leaves: what it returns, `*pType` if it is set, and the bytes that are written to
the prefix and to the buffer. -/
structure Got where
  ret : Int
  type : Option Int
  pre : List UInt8
  buffer : List UInt8
  deriving DecidableEq

/-- `PmlGetPrefixValue`; `bytes` says whether there is a prefix or a buffer. -/
def pmlGetPrefixValue (obj : PmlObject) (bytes : Bool) (lenPrefix maxlen : Int) : Got :=
  match pmlGetLastValue obj with
  | none => ⟨error, none, [], []⟩
  | some v =>
    if ¬ bytes then ⟨ok, some v.type, [], []⟩
    else if lenPrefix < 0 ∨ maxlen < 0 then ⟨error, some v.type, [], []⟩
    else if lenPrefix + maxlen < v.len then ⟨error, some v.type, [], []⟩
    else if v.len < lenPrefix then ⟨error, some v.type, [], []⟩
    else
      let len := v.len - lenPrefix
      ⟨len, some v.type, slice v.value 0 lenPrefix.toNat,
        slice v.value lenPrefix.toNat len.toNat ++ if len < maxlen then [0] else []⟩

def pmlGetValue (obj : PmlObject) (maxlen : Int) : Got := pmlGetPrefixValue obj true 0 maxlen

/-- `accum`, after some bytes. -/
def accumulate (bytes : List UInt8) : UInt32 :=
  bytes.foldl (fun accum b => (accum <<< 8) ||| b.toUInt32) 0

/-- `PmlGetIntegerValue`: what it returns, `*pType` if it is set, and `*pValue`. -/
def pmlGetIntegerValue (obj : PmlObject) : Int × Option Int × UInt32 :=
  let got := pmlGetPrefixValue obj true 0 4
  -- an error is no byte
  (ok, got.type, accumulate (got.buffer.take got.ret.toNat))

/-- What `hpmud_get_pml` answers. -/
structure Reply where
  result : Nat
  data : List UInt8
  type : Int
  pmlResult : Int

/-- `HPMUD_R_OK`. -/
abbrev rOk : Nat := 0

def pmlRequestGet (obj : PmlObject) (reply : Reply) : Int × PmlObject :=
  let obj := { obj with status := reply.pmlResult }
  if reply.result = rOk then
    (ok, (pmlSetValue obj reply.type (ofList reply.data 0) reply.data.length).2)
  else (error, obj)

/-! ## Runs -/

inductive Call
  | setValue (type : Int) (value : Nat → UInt8) (len : Int)
  | setIntegerValue (type : Int) (value : UInt32)
  | requestGet (reply : Reply)

def Call.run (obj : PmlObject) : Call → Int × PmlObject
  | .setValue type value len => pmlSetValue obj type value len
  | .setIntegerValue type value => pmlSetIntegerValue obj type value
  | .requestGet reply => pmlRequestGet obj reply

abbrev Value := Int × List UInt8

def Call.value : Call → Value
  | .setValue type value len => (type, slice value 0 len.toNat)
  | .setIntegerValue type value => (type, integerBytes value)
  | .requestGet reply => (reply.type, reply.data)

/-- What `PmlGetValue` has to return for a value. -/
def valueGot (maxlen : Int) : Option Value → Got
  | none => ⟨error, none, [], []⟩
  | some (type, bytes) =>
    if maxlen < bytes.length then ⟨error, some type, [], []⟩
    else ⟨bytes.length, some type, [], bytes ++ if bytes.length < maxlen then [0] else []⟩

/-- What `PmlGetIntegerValue` has to return for a value: more than four bytes are no integer. -/
def integerGot : Option Value → Int × Option Int × UInt32
  | none => (ok, none, 0)
  | some (type, bytes) => (ok, some type, if 4 < bytes.length then 0 else accumulate bytes)

structure Shows (obj : PmlObject) (v : Option Value) : Prop where
  value : ∀ maxlen, pmlGetValue obj maxlen = valueGot maxlen v
  integer : pmlGetIntegerValue obj = integerGot v

/-- The value of the most recent call that succeeded, or else the one before all calls. -/
def lastSet (v : Option Value) (steps : List (Machine.Step PmlObject Call Int)) : Option Value :=
  steps.foldl (fun v t => if t.answer = ok then some t.call.value else v) v

def PmlObject.shown (obj : PmlObject) : Option Value :=
  (pmlGetLastValue obj).map fun v => (v.type, slice v.value 0 v.len)

/-- After every call the object shows what was set last, and an integer as the integer. -/
structure Survives (obj : PmlObject) (calls : List Call) : Prop where
  shows : ∀ cs, cs <+: calls → Shows (Machine.final Call.run obj cs)
    (lastSet obj.shown (Machine.trace Call.run obj cs))
  integers : ∀ t ∈ Machine.trace Call.run obj calls, ∀ type n, t.call = .setIntegerValue type n →
    pmlGetIntegerValue t.after = (ok, some type, n)

def PmlObject.other (obj : PmlObject) : Value :=
  let v := obj.value (obj.indexOfLastValue + 1)
  (v.type, slice v.value 0 v.len)

/-- A value that is set is not too long, or the slot that it would take happens to hold the last
value. A value that is fetched is not too long. -/
def Keeps (obj : PmlObject) : Call → Prop
  | .setValue _ _ len => 0 ≤ len ∧ len ≤ pmlMaxValueLen ∨ obj.shown = some obj.other
  | .setIntegerValue _ _ => True
  | .requestGet reply => reply.result = rOk → reply.data.length ≤ pmlMaxValueLen

section Shows

variable {obj : PmlObject} {v v' : Option Value}

theorem shown_eq_none (h : pmlGetLastValue obj = none) : obj.shown = none := by
  rw [PmlObject.shown, h]
  rfl

theorem shown_eq_some {w : PmlValue} (h : pmlGetLastValue obj = some w) :
    obj.shown = some (w.type, slice w.value 0 w.len) := by
  rw [PmlObject.shown, h]
  rfl

theorem pmlGetValue_eq (obj : PmlObject) (maxlen : Int) :
    pmlGetValue obj maxlen = valueGot maxlen obj.shown := by
  rw [pmlGetValue, pmlGetPrefixValue]
  cases hlast : pmlGetLastValue obj with
  | none =>
    rw [shown_eq_none hlast]
    rfl
  | some w =>
    rw [shown_eq_some hlast, valueGot]
    simp only [slice_length, Int.zero_add, Int.sub_zero]
    by_cases hlong : maxlen < w.len
    · rw [if_pos hlong]
      simp [hlong]
    · rw [if_neg hlong]
      have hmax : ¬ maxlen < 0 := by omega
      have hpos : ¬ (w.len : Int) < 0 := by omega
      simp [hlong, hmax, hpos]

theorem shows_shown (obj : PmlObject) : Shows obj obj.shown := by
  constructor
  · exact pmlGetValue_eq obj
  · have hgot := pmlGetValue_eq obj 4
    rw [pmlGetValue] at hgot
    rw [pmlGetIntegerValue, hgot]
    cases obj.shown with
    | none => rfl
    | some v =>
      rw [valueGot, integerGot]
      by_cases hlong : 4 < v.2.length
      · rw [if_pos (by omega), if_pos hlong]
        rfl
      · rw [if_neg (by omega), if_neg hlong]
        simp

theorem valueGot_inj (h : ∀ maxlen, valueGot maxlen v = valueGot maxlen v') : v = v' := by
  cases v with
  | none =>
    cases v' with
    | none => rfl
    | some w' => exact absurd (h w'.2.length) (by simp [valueGot])
  | some w =>
    cases v' with
    | none => exact absurd (h w.2.length) (by simp [valueGot])
    | some w' =>
      have hgot := h (w.2.length + w'.2.length)
      have hroom : ¬ (w.2.length + w'.2.length : Int) < w.2.length := by omega
      have hroom' : ¬ (w.2.length + w'.2.length : Int) < w'.2.length := by omega
      rw [valueGot, valueGot, if_neg hroom, if_neg hroom'] at hgot
      obtain ⟨hlen, htype, -, hbytes⟩ := Got.mk.inj hgot
      have hbytes' := List.append_inj_left hbytes (Int.ofNat.inj hlen)
      exact congrArg some (Prod.ext (Option.some.inj htype) hbytes')

theorem shows_iff : Shows obj v ↔ obj.shown = v := by
  constructor
  · exact fun h => valueGot_inj fun maxlen => (pmlGetValue_eq obj maxlen).symm.trans (h.value maxlen)
  · rintro rfl
    exact shows_shown obj

end Shows

/-! ## Sets -/

section Sets

variable {obj : PmlObject}

theorem accumulate_zeros (bytes : List UInt8) :
    accumulate (bytes.dropWhile (· = 0)) = accumulate bytes := by
  induction bytes with
  | nil => rfl
  | cons b bytes ih =>
    by_cases hb : b = 0
    · subst hb
      rw [List.dropWhile_cons_of_pos (by rfl), ih]
      rfl
    · rw [List.dropWhile_cons_of_neg (by simpa using hb)]

theorem shift_or_byte (m : UInt32) : ((m >>> 8) <<< 8) ||| m.toUInt8.toUInt32 = m := by
  refine UInt32.toNat_inj.mp (Nat.eq_of_testBit_eq fun i => ?_)
  rw [UInt32.toNat_or, Nat.testBit_or, UInt32.toNat_shiftLeft, UInt32.toNat_shiftRight,
    UInt8.toNat_toUInt32, UInt32.toNat_toUInt8]
  show (((m.toNat >>> 8) <<< 8 % 2 ^ 32).testBit i || (m.toNat % 2 ^ 8).testBit i)
    = m.toNat.testBit i
  rw [Nat.testBit_mod_two_pow, Nat.testBit_mod_two_pow, Nat.testBit_shiftLeft,
    Nat.testBit_shiftRight]
  by_cases hlow : i < 8
  · simp [hlow]
  · have hback : 8 + (i - 8) = i := by lia
    rw [hback]
    by_cases hword : i < 32
    · simp [hlow, hword, Nat.not_lt.mp hlow]
    · have hpow : 2 ^ 32 ≤ 2 ^ i := Nat.pow_le_pow_right (by decide) (Nat.not_lt.mp hword)
      have hzero : m.toNat.testBit i = false :=
        Nat.testBit_lt_two_pow (Nat.lt_of_lt_of_le m.toNat_lt hpow)
      simp [hlow, hzero]

theorem shiftRight_shiftRight (n : UInt32) : (n >>> 24) >>> 8 = 0 ∧ (n >>> 16) >>> 8 = n >>> 24 ∧
    (n >>> 8) >>> 8 = n >>> 16 := by
  refine ⟨UInt32.toNat_inj.mp ?_, UInt32.toNat_inj.mp ?_, UInt32.toNat_inj.mp ?_⟩
  · have hn := n.toNat_lt
    simp [UInt32.toNat_shiftRight, Nat.shiftRight_eq_div_pow]
    lia
  · simp [UInt32.toNat_shiftRight, ← Nat.shiftRight_add]
  · simp [UInt32.toNat_shiftRight, ← Nat.shiftRight_add]

theorem accumulate_integerBytes (n : UInt32) : accumulate (integerBytes n) = n := by
  obtain ⟨hfirst, hsecond, hthird⟩ := shiftRight_shiftRight n
  rw [integerBytes, accumulate_zeros]
  simp only [accumulate, List.foldl_cons, List.foldl_nil]
  rw [← hfirst, shift_or_byte, ← hsecond, shift_or_byte, ← hthird, shift_or_byte, shift_or_byte]

theorem integerBytes_length_le (n : UInt32) : (integerBytes n).length ≤ 4 :=
  (List.dropWhile_sublist _).length_le

theorem pmlPrepareNextValue_count (obj : PmlObject) :
    (pmlPrepareNextValue obj).numberOfValidValues ≠ 0 := by
  show (if obj.numberOfValidValues < pmlMaxOidValues then obj.numberOfValidValues + 1
    else obj.numberOfValidValues) ≠ 0
  by_cases h : obj.numberOfValidValues < pmlMaxOidValues
  · rw [if_pos h]
    exact Nat.succ_ne_zero _
  · rw [if_neg h]
    intro hzero
    exact h (hzero ▸ Nat.zero_lt_two)

theorem shown_prepared (obj : PmlObject) : (pmlPrepareNextValue obj).shown = some obj.other := by
  rw [PmlObject.shown, pmlGetLastValue, if_neg (pmlPrepareNextValue_count obj)]
  rfl

theorem slice_fill (v : PmlValue) (type : Int) (bytes : List UInt8)
    (h : bytes.length ≤ pmlMaxValueLen) :
    slice (v.fill type bytes h).value 0 bytes.length = bytes := by
  have hwhole : slice (v.fill type bytes h).value 0 (bytes.length + 1) = bytes ++ [0] := by
    have hlist := slice_ofList (bytes ++ [0]) (0 : UInt8)
    rw [List.length_append, List.length_singleton] at hlist
    exact (slice_blit_self ..).trans hlist
  rw [slice_concat] at hwhole
  exact List.append_inj_left' hwhole rfl

theorem pmlSetPrefixValue_fits (type : Int) (pre value : Nat → UInt8) {lenPrefix lenValue : Int}
    (hpre : 0 ≤ lenPrefix) (hvalue : 0 ≤ lenValue) (hfits : lenPrefix + lenValue ≤ pmlMaxValueLen) :
    (pmlSetPrefixValue obj type pre lenPrefix value lenValue).1 = ok ∧
      (pmlSetPrefixValue obj type pre lenPrefix value lenValue).2.shown
        = some (type, slice pre 0 lenPrefix.toNat ++ slice value 0 lenValue.toNat) := by
  rw [pmlSetPrefixValue]
  dsimp only
  rw [dif_neg (by lia)]
  refine ⟨rfl, ?_⟩
  rw [PmlObject.shown, pmlGetLastValue, if_neg (pmlPrepareNextValue_count obj)]
  dsimp only
  rw [Option.map_some, Function.update_self]
  exact congrArg some (Prod.ext rfl (slice_fill ..))

theorem pmlSetPrefixValue_long (type : Int) (pre value : Nat → UInt8) {lenPrefix lenValue : Int}
    (hlong : lenPrefix < 0 ∨ lenValue < 0 ∨ pmlMaxValueLen < lenPrefix + lenValue) :
    (pmlSetPrefixValue obj type pre lenPrefix value lenValue).1 = error ∧
      (pmlSetPrefixValue obj type pre lenPrefix value lenValue).2.shown = some obj.other := by
  rw [pmlSetPrefixValue]
  dsimp only
  rw [dif_pos hlong]
  exact ⟨rfl, shown_prepared obj⟩

theorem pmlSetValue_fits (obj : PmlObject) (type : Int) (value : Nat → UInt8) {len : Int}
    (hpos : 0 ≤ len) (hfits : len ≤ pmlMaxValueLen) :
    (pmlSetValue obj type value len).1 = ok ∧
      (pmlSetValue obj type value len).2.shown = some (type, slice value 0 len.toNat) :=
  pmlSetPrefixValue_fits type _ value (Int.le_refl 0) hpos (by omega)

theorem pmlSetValue_long (obj : PmlObject) (type : Int) (value : Nat → UInt8) {len : Int}
    (hlong : len < 0 ∨ pmlMaxValueLen < len) :
    (pmlSetValue obj type value len).1 = error ∧
      (pmlSetValue obj type value len).2.shown = some obj.other :=
  pmlSetPrefixValue_long type _ value (by omega)

theorem pmlSetIntegerValue_fits (obj : PmlObject) (type : Int) (n : UInt32) :
    (pmlSetIntegerValue obj type n).1 = ok ∧
      (pmlSetIntegerValue obj type n).2.shown = some (type, integerBytes n) := by
  have hle := integerBytes_length_le n
  have hfits : ((integerBytes n).length : Int) + 0 ≤ pmlMaxValueLen := by
    rw [pmlMaxValueLen]
    omega
  have hset := @pmlSetPrefixValue_fits obj type (ofList (integerBytes n) 0) (fun _ => 0) _ _
    (Int.natCast_nonneg (integerBytes n).length) (Int.le_refl 0) hfits
  rw [Int.toNat_natCast, slice_ofList, Int.toNat_zero, slice_zero, List.append_nil] at hset
  exact hset

theorem pmlGetIntegerValue_set (obj : PmlObject) (type : Int) (n : UInt32) :
    pmlGetIntegerValue (pmlSetIntegerValue obj type n).2 = (ok, some type, n) := by
  have hle := integerBytes_length_le n
  have hshow := (shows_iff.mpr (pmlSetIntegerValue_fits obj type n).2).integer
  rw [hshow, integerGot, if_neg (by omega), accumulate_integerBytes]

end Sets

/-! ## Every run -/

def expected (v : Option Value) (t : Machine.Step PmlObject Call Int) : Option Value :=
  if t.answer = ok then some t.call.value else v

theorem slice_ofList_natCast (data : List UInt8) :
    slice (ofList data 0) 0 (data.length : Int).toNat = data := by
  rw [Int.toNat_natCast, slice_ofList]

theorem run_shown_iff (obj : PmlObject) (call : Call) :
    (call.run obj).2.shown = expected obj.shown (Machine.stepOf Call.run obj call)
      ↔ Keeps obj call := by
  cases call with
  | setValue type value len =>
    by_cases hfits : 0 ≤ len ∧ len ≤ pmlMaxValueLen
    · obtain ⟨hok, hset⟩ := pmlSetValue_fits obj type value hfits.1 hfits.2
      exact iff_of_true (hset.trans (if_pos hok).symm) (.inl hfits)
    · obtain ⟨herror, hset⟩ := @pmlSetValue_long obj type value len (by omega)
      have hanswer : ¬ (pmlSetValue obj type value len).1 = ok := by
        rw [herror]
        decide
      have hexpected : expected obj.shown (Machine.stepOf Call.run obj (.setValue type value len))
          = obj.shown := if_neg hanswer
      rw [hexpected, Keeps, or_iff_right hfits]
      exact (Eq.congr_left hset).trans eq_comm
  | setIntegerValue type n =>
    obtain ⟨hok, hset⟩ := pmlSetIntegerValue_fits obj type n
    exact iff_of_true (hset.trans (if_pos hok).symm) trivial
  | requestGet reply =>
    -- what is fetched is stored in the object that has the new status already
    let obj' : PmlObject := { obj with status := reply.pmlResult }
    by_cases hresult : reply.result = rOk
    · have hrun : pmlRequestGet obj reply
          = (ok, (pmlSetValue obj' reply.type (ofList reply.data 0) reply.data.length).2) :=
        if_pos hresult
      have hanswer : (pmlRequestGet obj reply).1 = ok := by rw [hrun]
      have hexpected : expected obj.shown (Machine.stepOf Call.run obj (.requestGet reply))
          = some (reply.type, reply.data) := if_pos hanswer
      rw [hexpected, Keeps, Call.run, hrun, forall_prop_of_true hresult]
      constructor
      · intro hshown
        by_contra hlong
        rw [(pmlSetValue_long obj' reply.type (ofList reply.data 0)
          (.inr (Int.not_le.mp hlong))).2] at hshown
        have hbytes := congrArg List.length (Prod.mk.inj (Option.some.inj hshown)).2
        rw [slice_length] at hbytes
        exact hlong (hbytes ▸ (obj'.value (obj'.indexOfLastValue + 1)).len_le)
      · intro hfits
        have hset := (pmlSetValue_fits obj' reply.type (ofList reply.data 0)
          (Int.natCast_nonneg _) hfits).2
        rw [slice_ofList_natCast] at hset
        exact hset
    · have hrun : pmlRequestGet obj reply = (error, obj') := if_neg hresult
      have hanswer : ¬ (pmlRequestGet obj reply).1 = ok := by
        rw [hrun]
        exact Int.zero_ne_one
      refine iff_of_true ?_ fun h => absurd h hresult
      rw [Call.run, hrun]
      exact (if_neg hanswer).symm

theorem lastSet_cons (obj : PmlObject) (v : Option Value) (call : Call) (calls : List Call) :
    lastSet v (Machine.trace Call.run obj (call :: calls))
      = lastSet (expected v (Machine.stepOf Call.run obj call))
        (Machine.trace Call.run (call.run obj).2 calls) := rfl

theorem survives_cons (obj : PmlObject) (call : Call) (calls : List Call) :
    Survives obj (call :: calls) ↔ Keeps obj call ∧ Survives (call.run obj).2 calls := by
  have hstep := run_shown_iff obj call
  constructor
  · intro h
    have hkeeps : Keeps obj call := by
      have hfirst := h.shows [call] ⟨calls, rfl⟩
      exact hstep.mp (shows_iff.mp hfirst)
    refine ⟨hkeeps, fun cs hcs => ?_, fun t ht => h.integers t (List.mem_cons_of_mem _ ht)⟩
    have hrun := h.shows (call :: cs) (List.cons_prefix_cons.mpr ⟨rfl, hcs⟩)
    rw [lastSet_cons, ← hstep.mpr hkeeps] at hrun
    exact hrun
  · rintro ⟨hkeeps, h⟩
    refine ⟨fun cs hcs => ?_, fun t ht => ?_⟩
    · cases cs with
      | nil => exact shows_shown obj
      | cons c cs =>
        obtain ⟨rfl, hprefix⟩ := List.cons_prefix_cons.mp hcs
        rw [lastSet_cons, ← hstep.mpr hkeeps]
        exact h.shows cs hprefix
    · rcases List.mem_cons.mp ht with rfl | ht
      · intro type n hcall
        cases hcall
        exact pmlGetIntegerValue_set obj type n
      · exact h.integers t ht

/-- An object shows what was set last all along exactly if every call keeps it. -/
theorem survives_iff (obj : PmlObject) (calls : List Call) :
    Survives obj calls ↔ ∀ t ∈ Machine.trace Call.run obj calls, Keeps t.before t.call := by
  induction calls generalizing obj with
  | nil =>
    refine iff_of_true ⟨fun cs hcs => ?_, ?_⟩ ?_
    · rw [List.prefix_nil.mp hcs]
      exact shows_shown obj
    · intro t ht
      cases ht
    · intro t ht
      cases ht
  | cons call calls ih =>
    rw [survives_cons, ih, Machine.trace_cons, List.forall_mem_cons]
    rfl

/-- A slot as `PmlSetID` leaves it. -/
def emptyValue : PmlValue := ⟨0, 0, fun _ => 0, by decide⟩

def emptyObject : PmlObject := ⟨0, 0, fun _ => emptyValue, 0⟩

/-- A device answers with one byte more than fits: the get is OK, and shows an empty value. -/
theorem fetched_value_lost :
    ¬ Survives emptyObject [.requestGet ⟨rOk, List.replicate 1024 65, 8, 0⟩] := by
  intro h
  have hfits := ((survives_cons ..).mp h).1 rfl
  rw [List.length_replicate] at hfits
  exact absurd hfits (by decide)

end Hplip.Sane.PmlValues
