import Mathlib.Data.List.TakeWhile
import Mathlib.Tactic.Ring

/-!
# Integers as PML data (pml.py)

An integer is sent with as few bytes as it takes, and a device may answer with fewer than four. The
leading bytes are looked for in the data by their elements, and these are texts in Python 2 and
numbers in Python 3, where no element equals a text.
-/

namespace Hplip.Base.Pml

/-! ## The code -/

inductive Python where
  | two
  | three
  deriving DecidableEq

/-- `TYPE_ENUMERATION`, `TYPE_SIGNED_INTEGER` and `TYPE_COLLECTION`. -/
inductive IntegerType where
  | enumeration
  | signedInteger
  | collection

abbrev intSizeByte : Nat := 1
abbrev intSizeWord : Nat := 2
abbrev intSizeInt : Nat := 4

inductive Result where
  | int (n : Int)
  | typeError
  | structError
  | internalError
  deriving DecidableEq

/-- `data[i] == c`, of an element and a text of one character. -/
def isChar (py : Python) (x c : UInt8) : Bool :=
  match py with
  | .two => x == c
  | .three => false

def ofBytes (bs : List UInt8) : Nat := bs.foldl (fun n b => 256 * n + b.toNat) 0

def signedOf (bs : List UInt8) : Int :=
  if 2 * ofBytes bs < 256 ^ bs.length then ofBytes bs else ofBytes bs - 256 ^ bs.length

/-- `struct.pack(">i", value)` -/
def packInt (value : Int) : Option (List UInt8) :=
  if -2 ^ 31 ≤ value ∧ value < 2 ^ 31 then
    let n := (value % 2 ^ 32).toNat
    some [.ofNat (n / 256 ^ 3), .ofNat (n / 256 ^ 2), .ofNat (n / 256), .ofNat n]
  else none

/-- `struct.unpack`, of `size` bytes. -/
def unpack (size : Nat) (data : List UInt8) : Result :=
  if data.length = size then .int (signedOf data) else .structError

/-- `while len(data) > 1 and data[0] == '\xff' and data[1] == '\xff': data = data[1:]` -/
def dropFf (py : Python) : List UInt8 → List UInt8
  | a :: b :: rest =>
    if isChar py a 0xff && isChar py b 0xff then dropFf py (b :: rest) else a :: b :: rest
  | data => data

/-- `ConvertToPMLDataFormat`; `none` is a `struct.error`. -/
def convertToPML (py : Python) (value : Int) (_dataType : IntegerType) : Option (List UInt8) :=
  (packInt value).map fun data =>
    if 0 < value then data.dropWhile (isChar py · 0) else dropFf py data

/-- `while len(data) < 4: data = c + data` -/
def fill (c : UInt8) (data : List UInt8) : List UInt8 := List.replicate (4 - data.length) c ++ data

/-- `ConvertFromPMLDataFormat`. The length of a number is asked for where a word is desired. -/
def convertFromPML (py : Python) (data : List UInt8) (_dataType : IntegerType)
    (desiredIntSize : Nat) : Result :=
  match data with
  | [] => .int 0
  | first :: _ =>
    let data := fill (if isChar py first 0xff then 0xff else 0) data
    if desiredIntSize = intSizeInt then unpack 4 data
    else if desiredIntSize = intSizeWord then .typeError
    else if desiredIntSize = intSizeByte then unpack 1 (data.drop (data.length - intSizeByte))
    else .internalError

/-! ## The property -/

/-- An integer is got back from its data. -/
def RoundTrips (py : Python) (value : Int) (dataType : IntegerType) : Prop :=
  ∃ data, convertToPML py value dataType = some data ∧
    convertFromPML py data dataType intSizeInt = .int value

/-- The first byte of a number, without leading zeros, is 255. -/
def LeadsFf (value : Int) : Prop := ∃ k < 4, value / 256 ^ k = 255

/-- The number is one of `size` bytes. -/
def FitsSize (size : Nat) (n : Int) : Prop := -256 ^ size ≤ 2 * n ∧ 2 * n < 256 ^ size

/-- The sign is in the data, or four bytes are there, or it is known from a first byte of 255. -/
def SignKept (py : Python) (bs : List UInt8) : Prop :=
  0 ≤ signedOf bs ∨ bs.length = 4 ∨ py = .two ∧ bs.head? = some 0xff

/-! ## Bytes -/

section Bytes

variable {a c : UInt8} {bs cs : List UInt8} {py : Python}

theorem foldl_bytes (n : Nat) :
    bs.foldl (fun n b => 256 * n + b.toNat) n = n * 256 ^ bs.length + ofBytes bs := by
  rw [ofBytes]
  induction bs generalizing n with
  | nil => simp
  | cons b bs ih =>
    rw [List.foldl_cons, List.foldl_cons, ih, ih (256 * 0 + b.toNat), List.length_cons,
      Nat.pow_succ']
    ring

theorem ofBytes_cons : ofBytes (a :: bs) = a.toNat * 256 ^ bs.length + ofBytes bs := by
  rw [ofBytes, List.foldl_cons, Nat.mul_zero, Nat.zero_add, foldl_bytes]

theorem ofBytes_append : ofBytes (bs ++ cs) = ofBytes bs * 256 ^ cs.length + ofBytes cs := by
  rw [ofBytes, List.foldl_append, foldl_bytes]
  rfl

theorem ofBytes_lt (bs : List UInt8) : ofBytes bs < 256 ^ bs.length := by
  induction bs with
  | nil => exact Nat.one_pos
  | cons a bs ih =>
    rw [ofBytes_cons, List.length_cons, Nat.pow_succ']
    have ha : a.toNat + 1 ≤ 256 := a.toNat_lt
    have hmul := Nat.mul_le_mul_right (256 ^ bs.length) ha
    rw [Nat.add_mul, Nat.one_mul] at hmul
    omega

theorem ofBytes_zeros (k : Nat) : ofBytes (List.replicate k 0 ++ bs) = ofBytes bs := by
  induction k with
  | zero => rfl
  | succ k ih =>
    rw [List.replicate_succ, List.cons_append, ofBytes_cons, ih]
    exact (congrArg (· + ofBytes bs) (Nat.zero_mul _)).trans (Nat.zero_add _)

theorem signedOf_nonneg_iff : 0 ≤ signedOf (a :: bs) ↔ a.toNat < 128 := by
  have hlt := ofBytes_lt bs
  have hall := ofBytes_lt (a :: bs)
  have hhalf : 256 * 256 ^ bs.length = 2 * (128 * 256 ^ bs.length) := by ring
  rw [ofBytes_cons, List.length_cons, Nat.pow_succ', hhalf] at hall
  have hlow : 2 * ofBytes (a :: bs) < 256 ^ (a :: bs).length ↔ a.toNat < 128 := by
    rw [ofBytes_cons, List.length_cons, Nat.pow_succ', hhalf, Nat.mul_lt_mul_left Nat.two_pos]
    constructor
    · intro h
      exact Nat.lt_of_mul_lt_mul_right (Nat.lt_of_le_of_lt (Nat.le_add_right _ _) h)
    · intro h
      have hmul := Nat.mul_le_mul_right (256 ^ bs.length) (Nat.succ_le_of_lt h)
      rw [Nat.succ_mul] at hmul
      exact Nat.lt_of_lt_of_le (Nat.add_lt_add_left hlt _) hmul
  rw [signedOf, ← hlow]
  split
  case isTrue h => exact iff_of_true (Int.natCast_nonneg _) h
  case isFalse h =>
    have hbound : (ofBytes (a :: bs) : Int) < 256 ^ (a :: bs).length := by
      exact_mod_cast ofBytes_lt _
    exact iff_of_false (Int.not_le.mpr (Int.sub_neg_of_lt hbound)) h

theorem ofBytes_ffs (k : Nat) : ofBytes (List.replicate k 0xff) + 1 = 256 ^ k := by
  induction k with
  | zero => rfl
  | succ k ih =>
    rw [List.replicate_succ, ofBytes_cons, List.length_replicate, Nat.add_assoc, ih, Nat.pow_succ']
    exact (Nat.succ_mul 255 _).symm

end Bytes

/-! ## What is read -/

section Reads

variable {py : Python} {first : UInt8} {rest bs data : List UInt8} {t : IntegerType}

theorem length_fill (c : UInt8) (hlen : bs.length ≤ 4) : (fill c bs).length = 4 := by
  rw [fill, List.length_append, List.length_replicate, Nat.sub_add_cancel hlen]

theorem unpack_fill {c : UInt8} (hlen : bs.length ≤ 4) :
    unpack 4 (fill c bs) = .int (signedOf (fill c bs)) :=
  if_pos (length_fill c hlen)

theorem fill_of_replicate (c : UInt8) {k : Nat} (h : data = List.replicate k c ++ bs)
    (hdata : data.length = 4) : fill c bs = data := by
  rw [h, List.length_append, List.length_replicate] at hdata
  rw [fill, h, ← hdata, Nat.add_sub_cancel]

theorem convertFromPML_int (hlen : (first :: rest).length ≤ 4) :
    convertFromPML py (first :: rest) t intSizeInt
      = .int (signedOf (fill (if isChar py first 0xff then 0xff else 0) (first :: rest))) := by
  simp only [convertFromPML, unpack_fill hlen, if_true]

theorem signedOf_fill_zero (hlen : bs.length < 4) : signedOf (fill 0 bs) = ofBytes bs := by
  have hpow : 256 ^ bs.length ≤ 256 ^ 3 := Nat.pow_le_pow_right (by decide) (Nat.le_of_lt_succ hlen)
  have hbound := (ofBytes_lt bs).trans_le hpow
  rw [signedOf, fill, ofBytes_zeros, ← fill, length_fill 0 hlen.le, if_pos]
  omega

theorem not_nonneg_fill_ff (rest : List UInt8) : ¬ 0 ≤ signedOf (fill 0xff (0xff :: rest)) := by
  rw [fill]
  cases 4 - (0xff :: rest : List UInt8).length with
  | zero =>
    rw [List.replicate_zero, List.nil_append, signedOf_nonneg_iff]
    decide
  | succ k =>
    rw [List.replicate_succ, List.cons_append, signedOf_nonneg_iff]
    decide

theorem signedOf_fill_ff (hlen : bs.length < 4) :
    signedOf (fill 0xff bs) = ofBytes bs - 256 ^ bs.length := by
  obtain ⟨k, hk⟩ : ∃ k, 4 - bs.length = k + 1 := ⟨3 - bs.length, by omega⟩
  have hneg : ¬ 0 ≤ signedOf (fill 0xff bs) := by
    rw [fill, hk, List.replicate_succ, List.cons_append, signedOf_nonneg_iff]
    decide
  have hall : ofBytes (fill 0xff bs) + 256 ^ bs.length = 256 ^ 4 + ofBytes bs := by
    have hpow : 256 ^ 4 = 256 ^ (4 - bs.length) * 256 ^ bs.length := by
      rw [← Nat.pow_add, Nat.sub_add_cancel hlen.le]
    rw [fill, ofBytes_append, hpow, ← ofBytes_ffs (4 - bs.length), Nat.succ_mul, Nat.add_right_comm]
  have hall' : (ofBytes (fill 0xff bs) : Int) + 256 ^ bs.length = 256 ^ 4 + ofBytes bs := by
    exact_mod_cast hall
  rw [signedOf, length_fill _ hlen.le] at hneg ⊢
  split at hneg
  case isTrue => exact absurd (Int.natCast_nonneg _) hneg
  case isFalse h =>
    rw [if_neg h]
    push_cast
    omega

/-- **What a device sends** is read in four bytes exactly if its sign is kept. -/
theorem reads_int_iff (hlen : (first :: rest).length ≤ 4) :
    convertFromPML py (first :: rest) t intSizeInt = .int (signedOf (first :: rest))
      ↔ SignKept py (first :: rest) := by
  rw [convertFromPML_int hlen, Result.int.injEq, SignKept]
  rcases Nat.lt_or_eq_of_le hlen with hlt | heq
  · have hne : (first :: rest).length ≠ 4 := Nat.ne_of_lt hlt
    by_cases hff : isChar py first 0xff = true
    · rw [if_pos hff, signedOf_fill_ff hlt]
      have hpy : py = .two ∧ first = 0xff := by
        cases py with
        | two => exact ⟨rfl, eq_of_beq hff⟩
        | three => exact absurd hff Bool.false_ne_true
      obtain ⟨rfl, rfl⟩ := hpy
      have hneg : ¬ 0 ≤ signedOf (0xff :: rest) := by
        rw [signedOf_nonneg_iff]
        decide
      refine iff_of_true ?_ (.inr (.inr ⟨rfl, rfl⟩))
      rw [signedOf] at hneg ⊢
      split at hneg
      case isTrue => exact absurd (Int.natCast_nonneg _) hneg
      case isFalse h => rw [if_neg h]
    · have hpy : ¬ (py = .two ∧ (first :: rest).head? = some 0xff) := by
        rintro ⟨rfl, hfirst⟩
        exact hff (beq_of_eq (Option.some.inj hfirst))
      rw [if_neg hff, signedOf_fill_zero hlt, or_iff_left (not_or.mpr ⟨hne, hpy⟩)]
      constructor
      · intro h
        exact h ▸ Int.natCast_nonneg _
      · intro h
        rw [signedOf] at h ⊢
        split at h
        case isTrue hlow => rw [if_pos hlow]
        case isFalse =>
          have hbound : (ofBytes (first :: rest) : Int) < 256 ^ (first :: rest).length := by
            exact_mod_cast ofBytes_lt _
          exact absurd h (Int.not_le.mpr (Int.sub_neg_of_lt hbound))
  · refine iff_of_true ?_ (.inr (.inl heq))
    rw [fill, heq, Nat.sub_self, List.replicate_zero, List.nil_append]

theorem reads_byte (hne : bs ≠ []) (hlen : bs.length ≤ 4) (hfits : FitsSize 1 (signedOf bs)) :
    convertFromPML py bs t intSizeByte = .int (signedOf bs) := by
  obtain ⟨init, last, rfl⟩ : ∃ init last, bs = init ++ [last] :=
    ⟨_, _, (List.dropLast_concat_getLast hne).symm⟩
  have hread : convertFromPML py (init ++ [last]) t intSizeByte = .int (signedOf [last]) := by
    obtain ⟨first, rest, hcons⟩ := List.exists_cons_of_ne_nil hne
    have hdrop (c : UInt8) : (fill c (init ++ [last])).drop (4 - intSizeByte) = [last] := by
      have hfill := length_fill c hlen
      rw [fill, ← List.append_assoc] at hfill ⊢
      rw [List.length_append] at hfill
      exact List.drop_left' (Nat.eq_sub_of_add_eq hfill)
    rw [hcons] at hdrop hlen ⊢
    simp only [convertFromPML, length_fill _ hlen, hdrop]
    rfl
  rw [hread, Result.int.injEq]
  have hinit := ofBytes_lt init
  have hlast : last.toNat < 256 := last.toNat_lt
  have hone : ofBytes [last] = last.toNat := by
    rw [ofBytes_cons]
    exact Nat.mul_one _
  simp only [FitsSize, signedOf, ofBytes_append, hone, List.length_append, List.length_singleton,
    pow_succ', pow_zero, mul_one] at hfits ⊢
  generalize ofBytes init = q at hfits hinit ⊢
  have hcast : ((256 ^ init.length : Nat) : Int) = 256 ^ init.length := by push_cast; rfl
  rw [← hcast] at hfits ⊢
  generalize 256 ^ init.length = P at hfits hinit ⊢
  omega

theorem not_reads_word (hne : bs ≠ []) (n : Int) :
    convertFromPML py bs t intSizeWord ≠ .int n := by
  obtain ⟨first, rest, rfl⟩ := List.exists_cons_of_ne_nil hne
  exact Result.noConfusion

end Reads

/-! ## Round trips -/

section RoundTrips

variable {py : Python} {value : Int} {data : List UInt8} {t : IntegerType}

theorem packInt_spec (h : packInt value = some data) : data.length = 4 ∧ signedOf data = value := by
  rw [packInt] at h
  split at h
  case isFalse => exact absurd h nofun
  case isTrue hrange =>
    have hbytes := Option.some.inj h
    subst hbytes
    refine ⟨rfl, ?_⟩
    have hmod := Int.emod_nonneg value (b := 2 ^ 32) (by decide)
    obtain ⟨n, hn⟩ := Int.eq_ofNat_of_zero_le hmod
    rw [hn, Int.toNat_natCast]
    have hof : ofBytes [.ofNat (n / 256 ^ 3), .ofNat (n / 256 ^ 2), .ofNat (n / 256), .ofNat n] = n := by
      simp only [ofBytes, List.foldl_cons, List.foldl_nil, UInt8.toNat_ofNat']
      omega
    rw [signedOf, hof]
    show (if 2 * n < 256 ^ 4 then (n : Int) else n - 256 ^ 4) = value
    split <;> omega

theorem dropFf_spec (py : Python) (hne : data ≠ []) :
    ∃ k first rest, dropFf py data = first :: rest ∧
      data = List.replicate k 0xff ++ first :: rest ∧ (k ≠ 0 → isChar py first 0xff = true) := by
  induction data with
  | nil => exact absurd rfl hne
  | cons a data ih =>
    cases data with
    | nil => exact ⟨0, a, [], rfl, rfl, fun h => absurd rfl h⟩
    | cons b rest =>
      rw [dropFf]
      split
      case isFalse => exact ⟨0, a, b :: rest, rfl, rfl, fun h => absurd rfl h⟩
      case isTrue h =>
        rw [Bool.and_eq_true] at h
        obtain ⟨k, first, rest', hdrop, heq, hff⟩ := ih (List.cons_ne_nil b rest)
        have ha : a = 0xff := by
          cases py with
          | two => exact eq_of_beq h.1
          | three => exact absurd h.1 Bool.false_ne_true
        refine ⟨k + 1, first, rest', hdrop, by rw [heq, ha]; rfl, fun _ => ?_⟩
        rcases Nat.eq_zero_or_pos k with rfl | hk
        · rw [List.replicate_zero, List.nil_append, List.cons.injEq] at heq
          exact heq.1 ▸ h.2
        · exact hff (Nat.ne_of_gt hk)

theorem roundTrips_nonpos (hpack : packInt value = some data) (hvalue : value ≤ 0) :
    RoundTrips py value t := by
  obtain ⟨hdata, hsigned⟩ := packInt_spec hpack
  have hne : data ≠ [] := List.ne_nil_of_length_pos (hdata ▸ Nat.succ_pos 3)
  obtain ⟨k, first, rest, hdrop, heq, hff⟩ := dropFf_spec py hne
  have hlen : (first :: rest).length ≤ 4 := by
    rw [← hdata, heq, List.length_append]
    exact Nat.le_add_left _ _
  refine ⟨first :: rest, ?_, ?_⟩
  · rw [convertToPML, hpack, Option.map_some, if_neg (Int.not_lt.mpr hvalue), hdrop]
  · rw [convertFromPML_int hlen]
    rcases Nat.eq_zero_or_pos k with rfl | hk
    · have hfull : (first :: rest).length = 4 := by rw [← hdata, heq]; rfl
      rw [fill, hfull, Nat.sub_self, List.replicate_zero, List.nil_append, ← hsigned, heq]
      rfl
    · rw [if_pos (hff (Nat.ne_of_gt hk)), fill_of_replicate 0xff heq hdata, hsigned]

theorem leadsFf_iff {first : UInt8} {rest : List UInt8} (hfirst : first ≠ 0)
    (hlen : rest.length < 4) : LeadsFf (ofBytes (first :: rest)) ↔ first = 0xff := by
  have hlt := ofBytes_lt rest
  have hall := ofBytes_lt (first :: rest)
  have hpos : 0 < 256 ^ rest.length := Nat.pow_pos (by decide)
  have hone : 1 ≤ first.toNat :=
    Nat.pos_of_ne_zero fun h => hfirst (UInt8.toNat_inj.mp h)
  have hnat (k : Nat) : (ofBytes (first :: rest) : Int) / 256 ^ k = 255
      ↔ ofBytes (first :: rest) / 256 ^ k = 255 := by norm_cast
  have hhere : ofBytes (first :: rest) / 256 ^ rest.length = first.toNat := by
    rw [ofBytes_cons, Nat.add_comm, Nat.add_mul_div_right _ _ hpos, Nat.div_eq_of_lt hlt,
      Nat.zero_add]
  constructor
  · rintro ⟨k, -, hk⟩
    rw [hnat] at hk
    rcases Nat.lt_trichotomy k rest.length with hbelow | rfl | habove
    · have hle : 256 ≤ ofBytes (first :: rest) / 256 ^ k := by
        rw [Nat.le_div_iff_mul_le (Nat.pow_pos (by decide)), ← Nat.pow_succ', ofBytes_cons]
        calc 256 ^ (k + 1) ≤ 256 ^ rest.length := Nat.pow_le_pow_right (by decide) hbelow
          _ ≤ first.toNat * 256 ^ rest.length := Nat.le_mul_of_pos_left _ hone
          _ ≤ _ := Nat.le_add_right _ _
      exact absurd hk (Nat.ne_of_gt hle)
    · exact UInt8.toNat_inj.mp (hhere.symm.trans hk)
    · have hzero : ofBytes (first :: rest) / 256 ^ k = 0 :=
        Nat.div_eq_of_lt (hall.trans_le (Nat.pow_le_pow_right (by decide) habove))
      rw [hzero] at hk
      exact absurd hk (by decide)
  · rintro rfl
    exact ⟨rest.length, hlen, (hnat _).mpr hhere⟩

theorem roundTrips_pos (hpack : packInt value = some data) (hvalue : 0 < value) :
    RoundTrips .two value t ↔ ¬ LeadsFf value := by
  obtain ⟨hdata, hsigned⟩ := packInt_spec hpack
  have hof : (ofBytes data : Int) = value := by
    rw [signedOf] at hsigned
    split at hsigned
    case isTrue => exact hsigned
    case isFalse =>
      have hbound : (ofBytes data : Int) < 256 ^ data.length := by exact_mod_cast ofBytes_lt _
      exact absurd hvalue (Int.not_lt.mpr (hsigned ▸ Int.sub_nonpos_of_le hbound.le))
  have hzeros : data.takeWhile (isChar .two · 0)
      = List.replicate (data.takeWhile (isChar .two · 0)).length 0 :=
    List.eq_replicate_of_mem fun b hb =>
      eq_of_beq (a := b) (b := 0) (List.mem_takeWhile_imp (p := (isChar .two · 0)) hb)
  have hsplit := List.takeWhile_append_dropWhile (p := (isChar .two · 0)) (l := data)
  have hfirst := List.head?_dropWhile_not (isChar .two · 0) data
  rw [hzeros] at hsplit
  generalize (data.takeWhile (isChar .two · 0)).length = k at hsplit
  cases hdrop : data.dropWhile (isChar .two · 0) with
  | nil =>
    rw [hdrop] at hsplit
    rw [← hsplit, ofBytes_zeros] at hof
    exact absurd hvalue (hof ▸ Int.lt_irrefl 0)
  | cons first rest =>
    rw [hdrop] at hsplit hfirst
    have hne : first ≠ 0 := fun h => Bool.false_ne_true (hfirst.symm.trans (beq_of_eq h))
    have hlen : (first :: rest).length ≤ 4 := by
      rw [← hdata, ← hsplit, List.length_append]
      exact Nat.le_add_left _ _
    have hconvert : convertToPML .two value t = some (first :: rest) := by
      rw [convertToPML, hpack, Option.map_some, if_pos hvalue, hdrop]
    have hvalue' : (ofBytes (first :: rest) : Int) = value := by
      rw [← hof, ← hsplit, ofBytes_zeros]
    rw [← hvalue', leadsFf_iff hne hlen, RoundTrips]
    constructor
    · rintro ⟨bs, hbs, hread⟩ rfl
      rw [hvalue', hconvert, Option.some.injEq] at hbs
      subst hbs
      rw [convertFromPML_int hlen, if_pos (by rfl), Result.int.injEq] at hread
      exact not_nonneg_fill_ff rest (hread ▸ Int.natCast_nonneg _)
    · intro hff
      refine ⟨first :: rest, hvalue' ▸ hconvert, ?_⟩
      have hchar : ¬ isChar .two first 0xff = true := fun h => hff (eq_of_beq h)
      rw [convertFromPML_int hlen, if_neg hchar, fill_of_replicate 0 hsplit.symm hdata, hsigned,
        hvalue']

theorem convertToPML_three (hpack : packInt value = some data) :
    convertToPML .three value t = some data := by
  rw [convertToPML, hpack, Option.map_some]
  split
  · cases data <;> rfl
  · rcases data with _ | ⟨a, _ | ⟨b, data⟩⟩ <;> rfl

theorem roundTrips_three (hpack : packInt value = some data) : RoundTrips .three value t := by
  obtain ⟨hdata, hsigned⟩ := packInt_spec hpack
  obtain ⟨first, rest, hcons⟩ :=
    List.exists_cons_of_ne_nil (List.ne_nil_of_length_pos (by rw [hdata]; exact Nat.succ_pos 3))
  refine ⟨data, convertToPML_three hpack, ?_⟩
  rw [hcons] at hdata hsigned ⊢
  rw [convertFromPML_int hdata.le, fill, hdata, Nat.sub_self, List.replicate_zero, List.nil_append,
    hsigned]

theorem not_leadsFf (hvalue : value ≤ 0) : ¬ LeadsFf value := by
  rintro ⟨k, -, hk⟩
  have hle : value / 256 ^ k ≤ 0 := Int.ediv_nonpos_of_nonpos_of_neg hvalue (Int.pow_pos (by decide))
  exact absurd hk (Int.ne_of_lt (Int.lt_of_le_of_lt hle (by decide)))

end RoundTrips

/-- **Integers as PML data**: they are got back but for those that begin with 255, in Python 2, and
what a device sends is read if one byte is desired, or four and its sign is kept. -/
theorem pml_integers (py : Python) (t : IntegerType) :
    (∀ value : Int, -2 ^ 31 ≤ value → value < 2 ^ 31 →
      (RoundTrips py value t ↔ py = .three ∨ ¬ LeadsFf value)) ∧
    ∀ (bs : List UInt8) (size : Nat), bs ≠ [] → bs.length ≤ 4 →
      size ∈ [intSizeByte, intSizeWord, intSizeInt] → FitsSize size (signedOf bs) →
      (convertFromPML py bs t size = .int (signedOf bs)
        ↔ size = intSizeByte ∨ size = intSizeInt ∧ SignKept py bs) := by
  constructor
  · intro value hlow hhigh
    obtain ⟨data, hpack⟩ : ∃ data, packInt value = some data := ⟨_, if_pos ⟨hlow, hhigh⟩⟩
    cases py with
    | three => exact iff_of_true (roundTrips_three hpack) (.inl rfl)
    | two =>
      rw [or_iff_right Python.noConfusion]
      rcases Int.lt_or_le 0 value with hpos | hnonpos
      · exact roundTrips_pos hpack hpos
      · exact iff_of_true (roundTrips_nonpos hpack hnonpos) (not_leadsFf hnonpos)
  · intro bs size hne hlen hsize hfits
    simp only [List.mem_cons, List.not_mem_nil, or_false] at hsize
    rcases hsize with rfl | rfl | rfl
    · exact iff_of_true (reads_byte hne hlen hfits) (.inl rfl)
    · refine iff_of_false (not_reads_word hne _) ?_
      rintro (h | ⟨h, -⟩) <;> exact absurd h (by decide)
    · obtain ⟨first, rest, rfl⟩ := List.exists_cons_of_ne_nil hne
      rw [reads_int_iff hlen, or_iff_right (by decide : ¬ intSizeInt = intSizeByte),
        and_iff_right rfl]

theorem pml_integers_one :
    (-2 ^ 31 ≤ (1 : Int) ∧ (1 : Int) < 2 ^ 31 ∧
      (RoundTrips .two 1 .signedInteger ↔ Python.two = .three ∨ ¬ LeadsFf 1)) ∧
    FitsSize intSizeInt (signedOf [0xff, 0x80]) ∧
      (convertFromPML .two [0xff, 0x80] .enumeration intSizeInt = .int (signedOf [0xff, 0x80])
        ↔ intSizeInt = intSizeByte ∨ intSizeInt = intSizeInt ∧ SignKept .two [0xff, 0x80]) := by
  have hfits : FitsSize intSizeInt (signedOf [0xff, 0x80]) := by
    rw [FitsSize]
    decide
  exact ⟨⟨by decide, by decide, (pml_integers .two .signedInteger).1 1 (by decide) (by decide)⟩,
    hfits, (pml_integers .two .enumeration).2 _ _ (by decide) (by decide) (by decide) hfits⟩

/-- 255 is sent as one byte, and read as -1. -/
theorem ff_not_back : ¬ RoundTrips .two 255 .signedInteger := by
  rintro ⟨data, hto, hfrom⟩
  have hdata : data = [0xff] := Option.some.inj (hto.symm.trans (by decide))
  subst hdata
  exact absurd hfrom (by decide)

end Hplip.Base.Pml
