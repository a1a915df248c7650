import Mathlib
import Hplip.Lib.Checked

/-!
# SCL inquiries (scl.c, scl.h)

An inquiry is answered with `ESC * s`, a number, a small letter, and then an integer and `V` or a
count, `W` and as many bytes. A reply may come in several reads. `SclBufferIsPartialReply` says
after each of them how many bytes are missing.

What does not fit in an `int` is a fault, and so is a read outside the data. A channel has pieces
of its data ready, and a read gets one of them, or the front of it. What `sscanf` does with a
number that is too large is what glibc does: it stops at the ends of `long` and cuts to `int`.
-/

namespace Hplip.Sane.Scl

open Checked

abbrev lenSclBuffer : Nat := 256

abbrev intMax : Nat := 2 ^ 31 - 1

inductive Fault
  | bounds
  | overflow
  | fuel
  deriving DecidableEq

/-! ## SclBufferIsPartialReply -/

/-- `c - '0'` is at most nine. -/
def IsDigit (c : UInt8) : Prop := c - 48 ≤ 9

instance (c : UInt8) : Decidable (IsDigit c) := inferInstanceAs (Decidable (_ ≤ _))

def skipDigits : List UInt8 → Option (List UInt8)
  | [] => none
  | c :: rest => if IsDigit c then skipDigits rest else some (c :: rest)

def addDigits (value : Nat) : List UInt8 → Except Fault (Option (Nat × List UInt8))
  | [] => .ok none
  | c :: rest =>
    if ¬ IsDigit c then .ok (some (value, c :: rest))
    else if intMax < value * 10 + (c - 48).toNat then .error .overflow
    else addDigits (value * 10 + (c - 48).toNat) rest

def missing (datalen : Nat) : Option (Nat × List UInt8) → Except Fault Nat
  | none => .ok 0
  | some (_, []) => .ok 0
  | some (value, c :: rest) =>
    if c ≠ 87 then .ok 0
    else if intMax < datalen - rest.length + value then .error .overflow
    else .ok (datalen - rest.length + value - datalen)

/-- `SclBufferIsPartialReply`. The index is the length of the data less that of the rest. -/
def partialReply (data : List UInt8) : Except Fault Nat :=
  match data with
  | 27 :: 42 :: 115 :: rest =>
    match skipDigits rest with
    | none => .ok 0
    | some [] => .error .bounds
    | some (d :: rest) =>
      if d < 97 ∨ 122 < d then .ok 0
      else addDigits 0 rest >>= missing data.length
  | _ => .ok 0

/-! ## The channel -/

structure Channel where
  written : Nat
  pieces : List (List UInt8)

/-- `hpmud_read_channel`: nothing if there is no piece. -/
def readChannel (count : Nat) : List (List UInt8) → Option (List UInt8 × List (List UInt8))
  | [] => none
  | p :: pieces =>
    some (p.take count, if p.length ≤ count then pieces else p.drop count :: pieces)

/-- The loop of `SclChannelRead`: what was read, and what is left. -/
def readBody (s : List UInt8 × List (List UInt8) × Nat) : Except Fault
    ((List UInt8 × List (List UInt8) × Nat) ⊕ (List UInt8 × List (List UInt8))) := do
  let (buffer, pieces, countdown) := s
  match readChannel countdown pieces with
  | none => return .inr (buffer, pieces)
  | some (p, pieces) =>
    let buffer := buffer ++ p
    let countdown ← partialReply buffer
    let countdown :=
      if lenSclBuffer < buffer.length + countdown then lenSclBuffer - buffer.length else countdown
    if countdown = 0 then return .inr (buffer, pieces)
    return .inl (buffer, pieces, countdown)

/-- `SclChannelRead` of a reply to an inquiry. -/
def channelRead (pieces : List (List UInt8)) : Except Fault (List UInt8 × List (List UInt8)) :=
  iterate readBody .fuel (pieces.flatten.length + pieces.length + 1) ([], pieces, lenSclBuffer)

/-! ## SclInquire -/

/-- `SANE_Status`. -/
inductive Status
  | good
  | unsupported
  | ioError
  deriving DecidableEq

def cmdPunc (cmd : Nat) : UInt8 := ((cmd / 2 ^ 10) % 32 + 33 - 1).toUInt8

def cmdLetter1 (cmd : Nat) : UInt8 := ((cmd / 2 ^ 5) % 32 + 96 - 1).toUInt8

def cmdLetter2 (cmd : Nat) : UInt8 := (cmd % 32 + 64 - 1).toUInt8

/-- `%d` -/
def decimal (n : Int) : List UInt8 :=
  (if n < 0 then [45] else []) ++ (Nat.toDigits 10 n.natAbs).map fun c => c.toNat.toUInt8

/-- `SCL_CMD_RESET` and `SCL_CMD_CLEAR_ERROR_STACK` have no parameter. An inquiry has one. -/
def cmdReset : Nat := 10 * 2 ^ 10 + 27 * 2 ^ 5 + 6

def cmdClearErrorStack : Nat := 10 * 2 ^ 10 + 16 * 2 ^ 5 + 6

def cmdInquireDeviceParameter : Nat := 10 * 2 ^ 10 + 20 * 2 ^ 5 + 6

/-- The bytes of `SclSendCommand`. -/
def command (cmd : Nat) (param : Int) : List UInt8 :=
  if cmd = cmdReset then [27, cmdLetter2 cmd]
  else if cmd = cmdClearErrorStack then [27, cmdPunc cmd, cmdLetter1 cmd, cmdLetter2 cmd]
  else [27, cmdPunc cmd, cmdLetter1 cmd] ++ decimal param ++ [cmdLetter2 cmd]

def expectedChar (cmd : Nat) : UInt8 :=
  let c := cmdLetter2 cmd - 65 + 97 - 1
  if c = 113 then c - 1 else c

def expected (cmd : Nat) (param : Int) : List UInt8 :=
  [27, cmdPunc cmd, cmdLetter1 cmd] ++ decimal param ++ [expectedChar cmd]

def number (value : Nat) (digits : List UInt8) : Nat :=
  digits.foldl (fun v c => v * 10 + (c - 48).toNat) value

def IsSpace (c : UInt8) : Prop := c = 32 ∨ 9 ≤ c ∧ c ≤ 13

instance (c : UInt8) : Decidable (IsSpace c) := inferInstanceAs (Decidable (_ ∨ _))

/-- A number cut to `long` and then to `int`. -/
def toInt (n : Int) : Int := (max (-2 ^ 63) (min n (2 ^ 63 - 1))).bmod (2 ^ 32)

/-- `sscanf` with `"%d%n"`: the number, and how many characters were used. -/
def scanInt (s : List UInt8) : Option (Int × Nat) :=
  let t := s.dropWhile fun c => decide (IsSpace c)
  let neg := t.head? = some 45
  let u := if t.head? = some 45 ∨ t.head? = some 43 then t.tail else t
  let digits := u.takeWhile fun c => decide (IsDigit c)
  if digits = [] then none
  else some (toInt (if neg then -(number 0 digits : Int) else number 0 digits),
    s.length - u.length + digits.length)

/-- What the caller gets: the status, the value if there is one, and the buffer if there is
one. -/
structure Answer where
  status : Status
  value : Option Int
  buffer : Option (List UInt8)
  deriving DecidableEq

def cleared (buffer : Bool) (maxlen : Int) : Option (List UInt8) :=
  if buffer then some (List.replicate maxlen.toNat 0) else none

/-- The checks of `SclInquire` on what was read. The rest of the response is zero. -/
def checkReply (cmd : Nat) (param : Int) (buffer : Bool) (maxlen : Int) (reply : List UInt8) :
    Answer :=
  let out := cleared buffer maxlen
  let exp := expected cmd param
  if reply.length ≤ exp.length ∨ reply.take exp.length ≠ exp then ⟨.ioError, none, out⟩
  else
    let response := reply.drop exp.length
    if response.head? = some 78 then ⟨.unsupported, none, out⟩
    else
      match scanInt response with
      | none => ⟨.ioError, none, out⟩
      | some (value, len) =>
        if response.getD len 0 = 86 then ⟨.good, some value, out⟩
        else if response.getD len 0 ≠ 87 then ⟨.ioError, some value, out⟩
        else
          let data := response.drop (len + 1)
          if (data.length : Int) ≠ value ∨ maxlen < data.length then ⟨.ioError, some value, out⟩
          else ⟨.good, some value, out.map fun b => data ++ b.drop data.length⟩

/-- `SclInquire`, and what the channel has left. -/
def inquire (cmd : Nat) (param : Int) (buffer : Bool) (maxlen : Int) (channel : Channel) :
    Except Fault (Answer × List (List UInt8)) :=
  if channel.written ≠ (command cmd param).length then
    .ok (⟨.ioError, none, cleared buffer maxlen⟩, channel.pieces)
  else do
    let (reply, rest) ← channelRead channel.pieces
    return (checkReply cmd param buffer maxlen reply, rest)

/-! ## Replies -/

structure Digits where
  chars : List UInt8
  all : ∀ c ∈ chars, IsDigit c

inductive Body
  | integer (neg : Bool) (digits : Digits)
  | binary (count : Digits) (data : List UInt8)

def Body.bytes : Body → List UInt8
  | .integer neg digits => (if neg then [45] else []) ++ digits.chars ++ [86]
  | .binary count data => count.chars ++ 87 :: data

def Body.WellFormed : Body → Prop
  | .integer _ digits => digits.chars ≠ []
  | .binary count data => count.chars ≠ [] ∧ number 0 count.chars = data.length

/-- `ESC * s`, a number and a letter. -/
def lead (n : List UInt8) (letter : UInt8) : List UInt8 := 27 :: 42 :: 115 :: (n ++ [letter])

structure Reply where
  number : Digits
  letter : UInt8
  body : Body
  letter_small : 97 ≤ letter ∧ letter ≤ 122
  number_ne_nil : number.chars ≠ []
  wellFormed : body.WellFormed
  length_le : (lead number.chars letter ++ body.bytes).length ≤ lenSclBuffer

def Reply.bytes (r : Reply) : List UInt8 := lead r.number.chars r.letter ++ r.body.bytes

structure Cut (r : Reply) where
  pieces : List (List UInt8)
  ne_nil : ∀ p ∈ pieces, p ≠ []
  flatten_eq : pieces.flatten = r.bytes

/-- The first read has to have so many bytes: everything up to `W`, or all of a reply without. -/
def Reply.header (r : Reply) : Nat :=
  match r.body with
  | .integer .. => r.bytes.length
  | .binary count _ => (lead r.number.chars r.letter ++ count.chars).length + 1

/-- The number of a reply is added up without a sign in front of it only. -/
def Reply.Fits (r : Reply) : Prop :=
  match r.body with
  | .integer neg digits => neg = true ∨ Scl.number 0 digits.chars ≤ intMax
  | .binary .. => True

/-- What is added up in some data fits in an `int`. -/
def DataFits (data : List UInt8) : Prop :=
  ∀ (n digits : Digits) (letter : UInt8) (rest : List UInt8), 97 ≤ letter → letter ≤ 122 →
    data = lead n.chars letter ++ digits.chars ++ rest →
    number 0 digits.chars ≤ intMax ∧ (rest.head? = some 87 →
      (lead n.chars letter ++ digits.chars).length + 1 + number 0 digits.chars ≤ intMax)

/-! ## What is missing of some data -/

section Partial

variable {n digits : Digits} {letter : UInt8} {rest data : List UInt8} {value : Nat}

variable (value) in
theorem le_number (ds : List UInt8) : value ≤ number value ds := by
  induction ds generalizing value with
  | nil => exact Nat.le_refl _
  | cons c ds ih => exact Nat.le_trans (by omega) (ih (value * 10 + (c - 48).toNat))

theorem not_isDigit_of_small (h : 97 ≤ letter ∧ letter ≤ 122) : ¬ IsDigit letter := by
  unfold IsDigit
  simp only [UInt8.le_iff_toNat_le, UInt8.toNat_sub, UInt8.toNat_ofNat] at h ⊢
  lia

theorem isDigit_ne {c : UInt8} (h : IsDigit c) : c ≠ 87 := by
  rintro rfl
  exact absurd h (by decide)

theorem skipDigits_append {ds : List UInt8} (h : ∀ c ∈ ds, IsDigit c) (rest : List UInt8) :
    skipDigits (ds ++ rest) = skipDigits rest := by
  induction ds with
  | nil => rfl
  | cons c ds ih =>
    rw [List.cons_append, skipDigits, if_pos (h c List.mem_cons_self),
      ih fun x hx => h x (List.mem_cons_of_mem _ hx)]

theorem addDigits_append {ds : List UInt8} (h : ∀ c ∈ ds, IsDigit c) (hvalue : value ≤ intMax)
    (rest : List UInt8) :
    addDigits value (ds ++ rest)
      = if number value ds ≤ intMax then addDigits (number value ds) rest
        else .error .overflow := by
  induction ds generalizing value with
  | nil => exact (if_pos hvalue).symm
  | cons c ds ih =>
    rw [List.cons_append, addDigits, if_neg (not_not.mpr (h c List.mem_cons_self))]
    by_cases hfits : intMax < value * 10 + (c - 48).toNat
    · have hle := le_number (value * 10 + (c - 48).toNat) ds
      have hmany : ¬ number value (c :: ds) ≤ intMax := Nat.not_le.mpr (Nat.lt_of_lt_of_le hfits hle)
      rw [if_pos hfits, if_neg hmany]
    · rw [if_neg hfits, ih (fun x hx => h x (List.mem_cons_of_mem _ hx)) (Nat.le_of_not_lt hfits)]
      rfl

theorem partialReply_lead (hletter : 97 ≤ letter ∧ letter ≤ 122) (rest : List UInt8) :
    partialReply (lead n.chars letter ++ rest)
      = addDigits 0 rest >>= missing (lead n.chars letter ++ rest).length := by
  have hlead : lead n.chars letter ++ rest
      = 27 :: 42 :: 115 :: (n.chars ++ letter :: rest) := by simp [lead]
  rw [hlead, partialReply, skipDigits_append n.all, skipDigits,
    if_neg (not_isDigit_of_small hletter)]
  simp only
  rw [if_neg]
  simp only [UInt8.not_lt, not_or]
  exact hletter

theorem partialReply_digits (hletter : 97 ≤ letter ∧ letter ≤ 122) (rest : List UInt8) :
    partialReply (lead n.chars letter ++ digits.chars ++ rest)
      = if number 0 digits.chars ≤ intMax then
          addDigits (number 0 digits.chars) rest
            >>= missing (lead n.chars letter ++ digits.chars ++ rest).length
        else .error .overflow := by
  rw [List.append_assoc, partialReply_lead hletter, addDigits_append digits.all (Nat.zero_le _)]
  split
  · rfl
  · rfl

variable (n) in
theorem partialReply_count (hletter : 97 ≤ letter ∧ letter ≤ 122)
    (hfits : number 0 digits.chars ≤ intMax) (rest : List UInt8) :
    let h := (lead n.chars letter ++ digits.chars).length + 1
    partialReply (lead n.chars letter ++ digits.chars ++ 87 :: rest)
      = if intMax < h + number 0 digits.chars then .error .overflow
        else .ok (number 0 digits.chars - rest.length) := by
  intro h
  have hlen : (lead n.chars letter ++ digits.chars ++ 87 :: rest).length = h + rest.length := by
    rw [List.length_append, List.length_cons]
    lia
  rw [partialReply_digits hletter, if_pos hfits, addDigits, if_pos (by decide), hlen]
  show missing (h + rest.length) (some (number 0 digits.chars, 87 :: rest)) = _
  rw [missing, if_neg (not_not.mpr rfl), Nat.add_sub_cancel, Nat.add_sub_add_left]

theorem skipDigits_eq_some (h : skipDigits data = some rest) :
    ∃ n : Digits, data = n.chars ++ rest ∧ ∃ c t, rest = c :: t ∧ ¬ IsDigit c := by
  induction data with
  | nil => cases h
  | cons c data ih =>
    rw [skipDigits] at h
    by_cases hc : IsDigit c
    · rw [if_pos hc] at h
      obtain ⟨n, hn, hrest⟩ := ih h
      refine ⟨⟨c :: n.chars, ?_⟩, by rw [hn]; rfl, hrest⟩
      intro x hx
      rcases List.mem_cons.mp hx with rfl | hx
      · exact hc
      · exact n.all x hx
    · rw [if_neg hc] at h
      cases h
      exact ⟨⟨[], List.forall_mem_nil _⟩, rfl, c, data, rfl, hc⟩

theorem addDigits_cases (value : Nat) (data : List UInt8) :
    ∃ (digits : Digits) (rest : List UInt8), data = digits.chars ++ rest ∧
      ((rest = [] ∧ addDigits value data = .ok none) ∨
        (∃ c t, rest = c :: t ∧ ¬ IsDigit c
          ∧ addDigits value data = .ok (some (number value digits.chars, rest))) ∨
        (intMax < number value digits.chars ∧ addDigits value data = .error .overflow)) := by
  induction data generalizing value with
  | nil => exact ⟨⟨[], List.forall_mem_nil _⟩, [], rfl, .inl ⟨rfl, rfl⟩⟩
  | cons c data ih =>
    rw [addDigits]
    by_cases hc : IsDigit c
    · rw [if_neg (not_not.mpr hc)]
      by_cases hfits : intMax < value * 10 + (c - 48).toNat
      · rw [if_pos hfits]
        refine ⟨⟨[c], by simpa using hc⟩, data, rfl, .inr (.inr ⟨hfits, rfl⟩)⟩
      · rw [if_neg hfits]
        obtain ⟨digits, rest, hdata, hcases⟩ := ih (value * 10 + (c - 48).toNat)
        refine ⟨⟨c :: digits.chars, ?_⟩, rest, by rw [hdata]; rfl, hcases⟩
        intro x hx
        rcases List.mem_cons.mp hx with rfl | hx
        · exact hc
        · exact digits.all x hx
    · rw [if_pos hc]
      exact ⟨⟨[], List.forall_mem_nil _⟩, c :: data, rfl, .inr (.inl ⟨c, data, rfl, hc, rfl⟩)⟩

theorem partialReply_cases (data : List UInt8) :
    partialReply data = .ok 0 ∨
    ∃ (n digits : Digits) (letter : UInt8) (rest : List UInt8), (97 ≤ letter ∧ letter ≤ 122) ∧
      data = lead n.chars letter ++ digits.chars ++ rest ∧
      ((∃ v, partialReply data = .ok v ∧ rest.head? = some 87) ∨
        (partialReply data = .error .overflow ∧ (intMax < number 0 digits.chars ∨
          rest.head? = some 87 ∧ intMax <
            (lead n.chars letter ++ digits.chars).length + 1 + number 0 digits.chars))) := by
  by_cases hstart : ∃ t, data = 27 :: 42 :: 115 :: t
  · obtain ⟨t, rfl⟩ := hstart
    cases hskip : skipDigits t with
    | none =>
      left
      rw [partialReply, hskip]
    | some u =>
      obtain ⟨n, rfl, letter, rest, rfl, hletter⟩ := skipDigits_eq_some hskip
      by_cases hsmall : letter < 97 ∨ 122 < letter
      · left
        rw [partialReply, hskip]
        exact if_pos hsmall
      · have hsmall : 97 ≤ letter ∧ letter ≤ 122 := by
          simpa only [not_or, UInt8.not_lt] using hsmall
        have hdata : (27 :: 42 :: 115 :: (n.chars ++ letter :: rest) : List UInt8)
            = lead n.chars letter ++ rest := by simp [lead]
        rw [hdata, partialReply_lead hsmall]
        obtain ⟨digits, rest, rfl, ⟨-, hadd⟩ | ⟨c, t, rfl, -, hadd⟩ | ⟨hmany, hadd⟩⟩ :=
          addDigits_cases 0 rest
        · left
          rw [hadd]
          rfl
        · rw [hadd]
          simp only [bind, Except.bind]
          by_cases hc : c = 87
          · right
            have hfits : number 0 digits.chars ≤ intMax := by
              by_contra hmany
              rw [addDigits_append digits.all (Nat.zero_le _), if_neg hmany] at hadd
              cases hadd
            refine ⟨n, digits, letter, c :: t, hsmall, (List.append_assoc _ _ _).symm, ?_⟩
            have hcount := partialReply_count n hsmall hfits t
            rw [List.append_assoc, partialReply_lead hsmall, ← hc, hadd] at hcount
            simp only [bind, Except.bind] at hcount
            by_cases hover : intMax
                < (lead n.chars letter ++ digits.chars).length + 1 + number 0 digits.chars
            · right
              rw [if_pos hover] at hcount
              exact ⟨hcount, .inr ⟨congrArg some hc, hover⟩⟩
            · left
              rw [if_neg hover] at hcount
              exact ⟨_, hcount, congrArg some hc⟩
          · left
            rw [missing, if_pos hc]
        · right
          rw [hadd]
          exact ⟨n, digits, letter, rest, hsmall, (List.append_assoc _ _ _).symm,
            .inr ⟨rfl, .inl hmany⟩⟩
  · left
    unfold partialReply
    split
    · next t => exact absurd ⟨t, rfl⟩ hstart
    · rfl

theorem partialReply_error_append {e : Fault} (h : partialReply data = .error e)
    (more : List UInt8) : partialReply (data ++ more) = .error .overflow := by
  rcases partialReply_cases data with hok | ⟨n, digits, letter, rest, hletter, hdata, hcase⟩
  · rw [hok] at h
    cases h
  · have hmore : data ++ more = lead n.chars letter ++ digits.chars ++ (rest ++ more) := by
      rw [hdata, List.append_assoc]
    rcases hcase with ⟨v, hok, -⟩ | ⟨-, hmany | ⟨hhead, hmany⟩⟩
    · rw [hok] at h
      cases h
    · rw [hmore, partialReply_digits hletter, if_neg (Nat.not_le.mpr hmany)]
    · by_cases hfits : number 0 digits.chars ≤ intMax
      · obtain ⟨t, rfl⟩ : ∃ t, rest = 87 :: t := by
          cases rest with
          | nil => cases hhead
          | cons c t => exact ⟨t, by rw [Option.some.inj hhead]⟩
        rw [hmore, List.cons_append, partialReply_count n hletter hfits, if_pos hmany]
      · rw [hmore, partialReply_digits hletter, if_neg hfits]

/-- **What is read, and what is added up**: nothing outside the data is read, and no sum is too
large exactly if the numbers of the data fit. -/
theorem partialReply_safe (data : List UInt8) :
    partialReply data ≠ .error .bounds
      ∧ (partialReply data ≠ .error .overflow ↔ DataFits data) := by
  constructor
  · intro hbounds
    rcases partialReply_cases data with h | ⟨_, _, _, _, _, _, ⟨v, h, -⟩ | ⟨h, -⟩⟩ <;>
    · rw [h] at hbounds
      cases hbounds
  constructor
  · intro hsafe n digits letter rest hge hle hdata
    have hfits : number 0 digits.chars ≤ intMax := by
      by_contra hmany
      rw [hdata, partialReply_digits ⟨hge, hle⟩, if_neg hmany] at hsafe
      exact hsafe rfl
    refine ⟨hfits, fun hhead => ?_⟩
    by_contra hmany
    cases rest with
    | nil => cases hhead
    | cons c t =>
      rw [hdata, Option.some.inj hhead, partialReply_count n ⟨hge, hle⟩ hfits,
        if_pos (Nat.lt_of_not_le hmany)] at hsafe
      exact hsafe rfl
  · intro hfits hover
    rcases partialReply_cases data with h | ⟨n, digits, letter, rest, hletter, hdata, hcase⟩
    · rw [h] at hover
      cases hover
    · obtain ⟨hnumber, hsum⟩ := hfits n digits letter rest hletter.1 hletter.2 hdata
      rcases hcase with ⟨v, h, -⟩ | ⟨-, hmany | ⟨hhead, hmany⟩⟩
      · rw [h] at hover
        cases hover
      · omega
      · have := hsum hhead
        omega

end Partial

/-! ## How replies are read -/

section Replies

theorem lenSclBuffer_lt : lenSclBuffer < intMax := by decide

variable {r : Reply} {q t : List UInt8}

theorem Reply.partialReply_bytes (hfits : r.Fits) : partialReply r.bytes = .ok 0 := by
  have hwf := r.wellFormed
  have hlen := r.length_le
  revert hfits hwf hlen
  rw [Reply.bytes, Reply.Fits]
  cases r.body with
  | integer neg digits =>
    intro hfits _ _
    cases neg with
    | true =>
      rw [partialReply_lead r.letter_small]
      rfl
    | false =>
      have hfits : Scl.number 0 digits.chars ≤ intMax := hfits.resolve_left (by decide)
      rw [Body.bytes, if_neg (by decide), List.nil_append, ← List.append_assoc,
        partialReply_digits r.letter_small, if_pos hfits]
      rfl
  | binary count data =>
    rintro - ⟨-, hcount⟩ hlen
    have hmax := lenSclBuffer_lt
    simp only [Body.bytes, List.length_append, List.length_cons] at hlen
    rw [Body.bytes, ← List.append_assoc, partialReply_count r.number r.letter_small (by lia),
      if_neg (by rw [List.length_append]; lia), hcount, Nat.sub_self]

theorem Reply.partialReply_of_not_fits (hfits : ¬ r.Fits) :
    partialReply r.bytes = .error .overflow := by
  revert hfits
  rw [Reply.bytes, Reply.Fits]
  cases r.body with
  | integer neg digits =>
    intro hfits
    obtain ⟨hneg, hmany⟩ := not_or.mp hfits
    rw [Body.bytes, if_neg hneg, List.nil_append, ← List.append_assoc,
      partialReply_digits r.letter_small, if_neg hmany]
  | binary count data => exact fun hfits => absurd trivial hfits

theorem Reply.not_mem_of_lt (hq : q ++ t = r.bytes) (hlt : q.length < r.header) :
    (87 : UInt8) ∉ q := by
  have hdigits : ∀ d : Digits, (87 : UInt8) ∉ d.chars := fun d h => isDigit_ne (d.all 87 h) rfl
  have hlead : (87 : UInt8) ∉ lead r.number.chars r.letter := by
    have hletter : (87 : UInt8) ≠ r.letter := by
      intro h
      exact absurd r.letter_small.1 (by rw [← h]; decide)
    simp [lead, hdigits, hletter]
  revert hq hlt
  rw [Reply.header, Reply.bytes]
  cases r.body with
  | integer neg digits =>
    intro hq _ hmem
    have hmem : (87 : UInt8) ∈ lead r.number.chars r.letter ++ (Body.integer neg digits).bytes := by
      rw [← hq]
      exact List.mem_append_left _ hmem
    rw [Body.bytes] at hmem
    cases neg <;> simp [hlead, hdigits] at hmem
  | binary count data =>
    intro hq hlt hmem
    rw [Body.bytes, ← List.append_assoc] at hq
    have hpre : q <+: lead r.number.chars r.letter ++ count.chars :=
      List.prefix_of_prefix_length_le ⟨t, hq⟩ ⟨_, rfl⟩ (Nat.le_of_lt_succ hlt)
    have hmem := hpre.subset hmem
    simp [hlead, hdigits] at hmem

theorem Reply.partialReply_before (hfits : r.Fits) (hq : q ++ t = r.bytes)
    (hlt : q.length < r.header) : partialReply q = .ok 0 := by
  rcases partialReply_cases q with h | ⟨n, digits, letter, rest, hletter, hdata, hcase⟩
  · exact h
  · rcases hcase with ⟨v, -, hhead⟩ | ⟨hover, -⟩
    · refine absurd ?_ (Reply.not_mem_of_lt hq hlt)
      rw [hdata]
      exact List.mem_append_right _ (List.mem_of_mem_head? hhead)
    · have hall := partialReply_error_append hover t
      rw [hq, r.partialReply_bytes hfits] at hall
      cases hall

theorem Reply.partialReply_after (hfits : r.Fits) (hq : q ++ t = r.bytes)
    (hge : r.header ≤ q.length) : partialReply q = .ok t.length := by
  have hwf := r.wellFormed
  have hlen := r.length_le
  have hall := r.partialReply_bytes hfits
  revert hq hge hwf hlen hall
  rw [Reply.header, Reply.bytes]
  cases r.body with
  | integer neg digits =>
    intro hq hge _ _ hall
    have hge : (lead r.number.chars r.letter ++ (Body.integer neg digits).bytes).length ≤ q.length :=
      hge
    have ht : t = [] := by
      have := congrArg List.length hq
      rw [List.length_append] at this
      exact List.length_eq_zero_iff.mp (by lia)
    rw [ht, List.append_nil] at hq
    rw [hq, hall, ht]
    rfl
  | binary count data =>
    rintro hq hge ⟨-, hcount⟩ hlen -
    have hmax := lenSclBuffer_lt
    have hge : (lead r.number.chars r.letter ++ count.chars).length + 1 ≤ q.length := hge
    simp only [Body.bytes, List.length_append, List.length_cons] at hlen
    -- the data has the header in front
    rw [Body.bytes, ← List.append_assoc] at hq
    have hq' := hq
    rw [← List.take_append_drop (lead r.number.chars r.letter ++ count.chars).length q,
      List.append_assoc] at hq'
    obtain ⟨hfront, hback⟩ := List.append_inj hq' (by rw [List.length_take]; lia)
    cases hdrop : q.drop (lead r.number.chars r.letter ++ count.chars).length with
    | nil =>
      have := congrArg List.length hdrop
      rw [List.length_drop] at this
      simp only [List.length_nil] at this
      lia
    | cons c u =>
      rw [hdrop, List.cons_append] at hback
      obtain ⟨rfl, hdata⟩ := List.cons.inj hback
      have hsplit : q = lead r.number.chars r.letter ++ count.chars ++ 87 :: u := by
        rw [← List.take_append_drop (lead r.number.chars r.letter ++ count.chars).length q, hdrop,
          hfront]
      have hlen' := congrArg List.length hdata
      rw [List.length_append] at hlen'
      rw [hsplit, partialReply_count r.number r.letter_small (by lia),
        if_neg (by rw [List.length_append]; lia), hcount]
      congr 1
      lia

theorem readBody_cons {buffer p : List UInt8} {pieces : List (List UInt8)} {countdown k : Nat}
    (hp : p.length ≤ countdown) (hk : partialReply (buffer ++ p) = .ok k)
    (hfit : (buffer ++ p).length + k ≤ lenSclBuffer) :
    readBody (buffer, p :: pieces, countdown)
      = .ok (if k = 0 then .inr (buffer ++ p, pieces) else .inl (buffer ++ p, pieces, k)) := by
  have hnot : ¬ lenSclBuffer < (buffer ++ p).length + k := Nat.not_lt.mpr hfit
  simp only [readBody, readChannel, List.take_of_length_le hp, if_pos hp, hk, bind, Except.bind,
    if_neg hnot]
  split
  · rfl
  · rfl

variable {p : List UInt8} {pieces : List (List UInt8)} {fuel countdown : Nat}

theorem Reply.reads_rest (hfits : r.Fits) (hne : ∀ x ∈ p :: pieces, x ≠ [])
    (hall : q ++ (p :: pieces).flatten = r.bytes) (hge : r.header ≤ (q ++ p).length)
    (hcountdown : (p :: pieces).flatten.length ≤ countdown) (hfuel : pieces.length < fuel) :
    iterate readBody .fuel fuel (q, p :: pieces, countdown) = .ok (r.bytes, []) := by
  induction pieces generalizing p q fuel countdown with
  | nil =>
    obtain ⟨fuel, rfl⟩ := Nat.exists_eq_succ_of_ne_zero (Nat.ne_of_gt hfuel)
    have hdone : q ++ p = r.bytes := by simpa using hall
    have hpartial := r.partialReply_bytes hfits
    rw [← hdone] at hpartial
    rw [iterate, readBody_cons (by simpa using hcountdown) hpartial (by
      rw [hdone]
      exact r.length_le), if_pos rfl, hdone]
  | cons x pieces ih =>
    obtain ⟨fuel, rfl⟩ := Nat.exists_eq_succ_of_ne_zero (Nat.ne_of_gt (Nat.lt_of_le_of_lt
      (Nat.zero_le _) hfuel))
    rw [List.flatten_cons] at hall hcountdown
    rw [← List.append_assoc] at hall
    have hlen := congrArg List.length hall
    have hmax := r.length_le
    have hx : x ≠ [] := hne x (by simp)
    have hpos : (x :: pieces).flatten.length ≠ 0 := by
      rw [List.flatten_cons, List.length_append]
      have := List.length_pos_iff.mpr hx
      lia
    rw [List.length_append] at hlen hcountdown
    rw [iterate, readBody_cons (by lia) (r.partialReply_after hfits hall hge) (by
      rw [hlen]
      exact hmax), if_neg hpos]
    refine ih (fun y hy => hne y (List.mem_cons_of_mem _ hy)) hall ?_ (Nat.le_refl _)
      (Nat.lt_of_succ_lt_succ hfuel)
    rw [List.length_append]
    lia

theorem Reply.channelRead_eq (hfits : r.Fits) (hne : ∀ x ∈ p :: pieces, x ≠ [])
    (hall : (p :: pieces).flatten = r.bytes) :
    channelRead (p :: pieces)
      = .ok (if r.header ≤ p.length then (r.bytes, []) else (p, pieces)) := by
  have hlen := congrArg List.length hall
  have hmax : r.bytes.length ≤ lenSclBuffer := r.length_le
  by_cases hge : r.header ≤ p.length
  · rw [if_pos hge, channelRead]
    refine r.reads_rest hfits hne hall hge (by lia) ?_
    rw [List.length_cons]
    lia
  · have hbefore := r.partialReply_before (q := p) (t := pieces.flatten) hfits hall
      (Nat.lt_of_not_le hge)
    rw [List.flatten_cons, List.length_append] at hlen
    have hbody : readBody ([], p :: pieces, lenSclBuffer)
        = .ok (if 0 = 0 then .inr ([] ++ p, pieces) else .inl ([] ++ p, pieces, 0)) :=
      readBody_cons (by lia) hbefore (by rw [List.nil_append]; lia)
    rw [if_neg hge, channelRead, iterate, hbody, if_pos rfl]
    rfl

theorem Reply.header_le : r.header ≤ r.bytes.length := by
  rw [Reply.header, Reply.bytes]
  cases r.body with
  | integer neg digits => exact Nat.le_refl _
  | binary count data =>
    rw [Body.bytes, ← List.append_assoc, List.length_append, List.length_cons]
    exact Nat.add_le_add_left (Nat.succ_le_succ (Nat.zero_le _)) _

theorem Reply.bytes_ne_nil : r.bytes ≠ [] := by
  simp [Reply.bytes, lead]

theorem Reply.channelRead_whole (hfits : r.Fits) : channelRead [r.bytes] = .ok (r.bytes, []) := by
  rw [r.channelRead_eq hfits (by simpa using r.bytes_ne_nil) (by simp), if_pos r.header_le]

theorem Reply.channelRead_of_not_fits (hfits : ¬ r.Fits) :
    channelRead [r.bytes] = .error .overflow := by
  have hread : readChannel lenSclBuffer [r.bytes] = some (r.bytes, []) := by
    have hmax : r.bytes.length ≤ lenSclBuffer := r.length_le
    rw [readChannel, List.take_of_length_le hmax, if_pos hmax]
  have hbody : readBody ([], [r.bytes], lenSclBuffer) = .error .overflow := by
    simp only [readBody, hread, List.nil_append, r.partialReply_of_not_fits hfits, bind,
      Except.bind]
  rw [channelRead, iterate, hbody]

end Replies

/-! ## Inquiries -/

def asked (cmd : Nat) (param : Int) (pieces : List (List UInt8)) : Channel :=
  ⟨(command cmd param).length, pieces⟩

/-- The answer is the same as for the reply in one read, and no byte is left. -/
def CutFree (cmd : Nat) (param : Int) (buffer : Bool) (maxlen : Int) (r : Reply) (c : Cut r) :
    Prop :=
  ∃ a, inquire cmd param buffer maxlen (asked cmd param [r.bytes]) = .ok (a, [])
    ∧ inquire cmd param buffer maxlen (asked cmd param c.pieces) = .ok (a, [])

theorem inquire_asked (cmd : Nat) (param : Int) (buffer : Bool) (maxlen : Int)
    (pieces : List (List UInt8)) :
    inquire cmd param buffer maxlen (asked cmd param pieces)
      = (channelRead pieces).map fun s => (checkReply cmd param buffer maxlen s.1, s.2) := by
  rw [inquire, asked, if_neg (not_not.mpr rfl)]
  cases channelRead pieces with
  | error e => rfl
  | ok s => rfl

/-- **When it does not matter how a reply is cut**: the first read has the header, and the number
fits. On any data nothing outside it is read, and the sums fit exactly if the numbers do. -/
theorem inquire_cut_iff (cmd : Nat) (param : Int) (buffer : Bool) (maxlen : Int) (r : Reply)
    (c : Cut r) (data : List UInt8) :
    (CutFree cmd param buffer maxlen r c ↔
      r.Fits ∧ ∃ p pieces, c.pieces = p :: pieces ∧ r.header ≤ p.length) ∧
    partialReply data ≠ .error .bounds ∧
      (partialReply data ≠ .error .overflow ↔ DataFits data) := by
  refine ⟨?_, partialReply_safe data⟩
  constructor
  · rintro ⟨a, hwhole, hcut⟩
    rw [inquire_asked] at hwhole hcut
    have hfits : r.Fits := by
      by_contra hfits
      rw [r.channelRead_of_not_fits hfits] at hwhole
      cases hwhole
    obtain ⟨pieces, hne, hflatten⟩ := c
    cases pieces with
    | nil => exact absurd hflatten.symm r.bytes_ne_nil
    | cons p pieces =>
      refine ⟨hfits, p, pieces, rfl, ?_⟩
      by_contra hlt
      -- the pieces that are left have bytes
      rw [r.channelRead_eq hfits hne hflatten, if_neg hlt] at hcut
      have hnil : pieces = [] := (Prod.mk.inj (Except.ok.inj hcut)).2
      have hall : p = r.bytes := by simpa [hnil] using hflatten
      exact hlt (hall ▸ r.header_le)
  · rintro ⟨hfits, p, pieces, hpieces, hge⟩
    obtain ⟨_, hne, hflatten⟩ := c
    subst hpieces
    refine ⟨checkReply cmd param buffer maxlen r.bytes, ?_, ?_⟩
    · rw [inquire_asked, r.channelRead_whole hfits]
      rfl
    · rw [inquire_asked, r.channelRead_eq hfits hne hflatten, if_pos hge]
      rfl

/-- The reply `5` to an inquiry of the parameter 1, and the same reply with a cut in front of the
number. -/
def five : Reply where
  number := ⟨[49], List.forall_mem_singleton.mpr (by decide)⟩
  letter := 100
  body := .integer false ⟨[53], List.forall_mem_singleton.mpr (by decide)⟩
  letter_small := by decide
  number_ne_nil := by decide
  wellFormed := by simp [Body.WellFormed]
  length_le := by decide

def cutFive : Cut five := ⟨[[27, 42, 115, 49, 100], [53, 86]], by decide, rfl⟩

/-- The first read is taken for the whole reply. And eleven digits do not fit. -/
theorem cut_five :
    ¬ CutFree cmdInquireDeviceParameter 1 false 0 five cutFive
      ∧ partialReply (lead [49] 100 ++ List.replicate 11 57) = .error .overflow := by
  refine ⟨?_, by decide⟩
  rintro ⟨a, -, hcut⟩
  rw [inquire_asked] at hcut
  have hread : channelRead cutFive.pieces = .ok ([27, 42, 115, 49, 100], [[53, 86]]) := by decide
  rw [hread] at hcut
  cases (Prod.mk.inj (Except.ok.inj hcut)).2

end Hplip.Sane.Scl
