import Hplip.Ip.JpegEncode
import Hplip.Ip.JpegHeader

/-!
# The rewriting of a short JPEG header (xjpg_fix.c)

The OfficeJet firmware sends a header of 22 bytes. It is replaced by standard segments, which are
several hundred bytes; the input behind it is copied after them, and the decoder parses the result.
Its positions are those of the rewritten header and are moved back.
-/

namespace Hplip.Ip.JpegFix

open JpegEnc

/-! ## The header -/

/-- `g->lenHeaderBuffer`, as the decoder's `getHeaderBufSize` tells it. -/
abbrev lenHeaderBuffer : Nat := JpegHdr.maxMarkerLen + 2000

def at' (input : List UInt8) (i : Nat) : UInt8 := input.getD i 0

/-- `struct shortHeader_s` -/
abbrev lenShortHeader : Nat := 22

def height (input : List UInt8) : List UInt8 := [at' input 6, at' input 7]

def width (input : List UInt8) : List UInt8 := [at' input 8, at' input 9]

def xres (input : List UInt8) : List UInt8 := [at' input 10, at' input 11]

def yres (input : List UInt8) : List UInt8 := [at' input 12, at' input 13]

def acQFactor (input : List UInt8) : Nat := (at' input 14).toNat

def numComponents (input : List UInt8) : Nat := (at' input 15).toNat

def bendGetShort (hi lo : UInt8) : Nat := hi.toNat * 256 + lo.toNat

def xSampleFactors (input : List UInt8) : Nat := bendGetShort (at' input 16) (at' input 17)

def ySampleFactors (input : List UInt8) : Nat := bendGetShort (at' input 18) (at' input 19)

def dcQFactor (input : List UInt8) : Nat := (at' input 20).toNat

def IsShort (input : List UInt8) : Prop :=
  lenShortHeader ≤ input.length ∧ input.take 6 = [0xff, 0xd8, 0xff, 0xe1, 0, 0x12]

instance (input : List UInt8) : Decidable (IsShort input) := inferInstanceAs (Decidable (_ ∧ _))

/-! ## The segments -/

section Segments

-- `shiftBack` is what a shift by a negative number of bits gives, which the language leaves open
variable (shiftBack : Nat → Nat → Nat) (input : List UInt8)

/-- `x >> (4*(3-i))` -/
def shifted (x i : Nat) : Nat := if i ≤ 3 then x >>> (4 * (3 - i)) else shiftBack x i

def soiApp0 : List UInt8 :=
  [0xff, 0xd8, 0xff, 0xe0, 0, 16, 0x4a, 0x46, 0x49, 0x46, 0, 1, 0, 1] ++ xres input ++ yres input
    ++ [0, 0]

/-- The components of the SOF segment; the third byte is `isNotFirstComponent`. -/
def sofComponent (i : Nat) : List UInt8 :=
  [i.toUInt8,
    (shifted shiftBack (xSampleFactors input) i % 16 * 16
      + shifted shiftBack (ySampleFactors input) i % 16).toUInt8,
    if i = 0 then 0 else 1]

/-- `sof0Length[1]` is one byte. -/
def sof0 : List UInt8 :=
  [0xff, 0xc0, 0, (8 + numComponents input * 3).toUInt8, 8] ++ height input ++ width input
    ++ [(numComponents input).toUInt8]
    ++ (List.range (numComponents input)).flatMap (sofComponent shiftBack input)

def dqt (i : Nat) : List UInt8 :=
  [0xff, 0xdb, 0, 67, i.toUInt8]
    ++ scaleQTable (dcQFactor input) (acQFactor input)
      (if i = 0 then origLumQuant else origChromQuant)

def dqts : List UInt8 :=
  (List.range ((if 1 < numComponents input then 1 else 0) + 1)).flatMap (dqt input)

def dhtInfo : List (UInt8 × List UInt8 × List UInt8) :=
  [(0x00, lumDCCounts, lumDCValues), (0x10, lumACCounts, lumACValues),
    (0x01, chromDCCounts, chromDCValues), (0x11, chromACCounts, chromACValues)]

/-- The tables that are written: without those for the chrominance if there is one component. -/
def dhtTables : List (UInt8 × List UInt8 × List UInt8) :=
  dhtInfo.take (if 1 < numComponents input then 4 else 2)

def dhtLength : Nat := 2 + ((dhtTables input).map fun t => 17 + numCodes t.2.1).sum

/-- `BEND_SET_SHORT` -/
def dht : List UInt8 :=
  [0xff, 0xc4, (dhtLength input / 256).toUInt8, (dhtLength input).toUInt8]
    ++ (dhtTables input).flatMap fun t => t.1 :: t.2.1 ++ t.2.2.take (numCodes t.2.1)

/-- `sosLength[1]` is one byte, too. -/
def sos : List UInt8 :=
  [0xff, 0xda, 0, (3 + numComponents input * 2 + 3).toUInt8, (numComponents input).toUInt8]
    ++ (List.range (numComponents input)).flatMap (fun i => [i.toUInt8, if i = 0 then 0 else 0x11])
    ++ [0, 63, 0]

/-- The header that is written. It is far smaller than the buffer, so that the check of `MYWRITEBUF`
does not fail. -/
def header : List UInt8 :=
  if IsShort input then
    soiApp0 input ++ sof0 shiftBack input ++ dqts input ++ dht input ++ sos input
  else []

end Segments

/-! ## The call -/

def dwordSub (a b : Nat) : Nat := (a + 2 ^ 32 - b) % 2 ^ 32

def lenRemovedHeader (input : List UInt8) : Nat := if IsShort input then lenShortHeader else 0

/-- How many bytes are copied. A negative `len` is compared as a DWORD and is too large. -/
def copyLen (lenAdded : Nat) (input : List UInt8) : Nat :=
  -- what is added is taken off as well, although it does not come from the input
  let len := dwordSub input.length (dwordSub lenAdded (lenRemovedHeader input))
  let room := dwordSub lenHeaderBuffer lenAdded
  if room < len then room else len

inductive Reply where
  /-- It accesses bytes outside of the header buffer or of the input. -/
  | outside
  | failed
  | done (headerBuffer : List UInt8) (inputUsed inputNextPos : Nat)
  deriving DecidableEq

/-- The decoder's call: the bytes that it has used and the position that it asks for, or nothing if
it fails. -/
abbrev Slave := List UInt8 → Option (Nat × Nat)

/-- `jpgFix_getActualTraits` -/
@[irreducible] def getActualTraits (shiftBack : Nat → Nat → Nat) (slave : Slave)
    (input : List UInt8) : Reply :=
  let lenAdded := (header shiftBack input).length
  let len := copyLen lenAdded input
  if lenHeaderBuffer < lenAdded + len ∨ input.length < lenRemovedHeader input + len then .outside
  else
    let headerBuffer := header shiftBack input
      ++ (input.drop (lenRemovedHeader input)).take len
    match slave headerBuffer with
    | none => .failed
    | some (used, nextPos) =>
      let grown := dwordSub lenAdded (lenRemovedHeader input)
      .done headerBuffer (dwordSub used grown) (dwordSub nextPos grown)

/-! ## What is asked -/

/-- A segment with a marker and, in two bytes, the length of what follows the marker. -/
def LengthOk (segment : List UInt8) : Prop :=
  bendGetShort (segment.getD 2 0) (segment.getD 3 0) + 2 = segment.length

instance (segment : List UInt8) : Decidable (LengthOk segment) :=
  inferInstanceAs (Decidable (_ = _))

/-- What the decoder does for the header that it is given: it fails unless there are one to four
components, and stops behind the SOS segment. Positions are DWORDs. -/
structure IsDecoder (shiftBack : Nat → Nat → Nat) (slave : Slave) : Prop where
  components : ∀ input rest, IsShort input → ¬ (1 ≤ numComponents input ∧ numComponents input ≤ 4) →
    slave (header shiftBack input ++ rest) = none
  stops : ∀ input rest r, IsShort input → slave (header shiftBack input ++ rest) = some r →
    r = ((header shiftBack input).length, (header shiftBack input).length)
  dword : ∀ buf r, slave buf = some r → r.1 < 2 ^ 32 ∧ r.2 < 2 ^ 32

/-- **All bytes are accounted for**: the call fails, or the segments have the lengths that they say,
the input behind the short header follows as far as there is room, and the positions are those of
the input at which the decoder has stopped. -/
def Accounts (shiftBack : Nat → Nat → Nat) (slave : Slave) (input : List UInt8) : Reply → Prop
  | .outside => False
  | .failed => True
  | .done headerBuffer inputUsed inputNextPos =>
    (IsShort input → LengthOk (sof0 shiftBack input) ∧ LengthOk (dht input) ∧ LengthOk (sos input))
      ∧ headerBuffer = header shiftBack input
        ++ (input.drop (lenRemovedHeader input)).take
            (lenHeaderBuffer - (header shiftBack input).length)
      ∧ ∃ used nextPos, slave headerBuffer = some (used, nextPos)
        ∧ inputUsed + (header shiftBack input).length = used + lenRemovedHeader input
        ∧ inputNextPos + (header shiftBack input).length = nextPos + lenRemovedHeader input

/-- The size of the header for `n` components. -/
def headerSize (n : Nat) : Nat := if 1 < n then 596 + 5 * n else 319 + 5 * n

/-- The input fills the header buffer but for the short header, or the decoder fails for a header
by which no more is copied than there is. -/
def Filled (input : List UInt8) : Prop :=
  IsShort input → lenHeaderBuffer ≤ input.length + lenShortHeader
    ∨ ¬ (1 ≤ numComponents input ∧ numComponents input ≤ 4)
      ∧ headerSize (numComponents input) ≤ input.length + lenShortHeader

instance (input : List UInt8) : Decidable (Filled input) :=
  inferInstanceAs (Decidable (_ → _ ∨ _))

/-! ## The lengths -/

section Lengths

variable {shiftBack : Nat → Nat → Nat} {input rest : List UInt8}

theorem numComponents_lt (input : List UInt8) : numComponents input < 256 := UInt8.toNat_lt _

theorem length_sof0 : (sof0 shiftBack input).length = 10 + 3 * numComponents input := by
  have hcomps : ((List.range (numComponents input)).flatMap (sofComponent shiftBack input)).length
      = 3 * numComponents input := by
    rw [List.length_flatMap]
    simp [sofComponent, Nat.mul_comm]
  rw [sof0, List.length_append, hcomps]
  rfl

theorem length_sos : (sos input).length = 8 + 2 * numComponents input := by
  have hcomps : ((List.range (numComponents input)).flatMap
      fun i => [i.toUInt8, if i = 0 then 0 else 0x11]).length = 2 * numComponents input := by
    rw [List.length_flatMap]
    simp [Nat.mul_comm]
  rw [sos, List.length_append, List.length_append, hcomps]
  show 5 + _ + 3 = _
  lia

theorem length_dqt (i : Nat) : (dqt input i).length = 69 := by
  rw [dqt, List.length_append, scaleQTable, List.length_map, List.length_zipIdx]
  by_cases hi : i = 0
  · rw [if_pos hi]
    rfl
  · rw [if_neg hi]
    rfl

theorem length_dqts : (dqts input).length = if 1 < numComponents input then 138 else 69 := by
  rw [dqts, List.length_flatMap]
  by_cases hn : 1 < numComponents input
  · rw [if_pos hn, if_pos hn]
    simp [length_dqt, List.range_succ]
  · rw [if_neg hn, if_neg hn]
    simp [length_dqt]

theorem dht_spec : (dht input).length = (if 1 < numComponents input then 420 else 212)
    ∧ LengthOk (dht input) := by
  by_cases hn : 1 < numComponents input
  · rw [LengthOk, dht, dhtLength, dhtTables, if_pos hn, if_pos hn]
    exact ⟨by decide +kernel, by decide +kernel⟩
  · rw [LengthOk, dht, dhtLength, dhtTables, if_neg hn, if_neg hn]
    exact ⟨by decide +kernel, by decide +kernel⟩

/-- **The segments** have the lengths that they say as long as the length of the SOF segment fits a
byte. -/
theorem lengths_ok (h : numComponents input ≤ 82) :
    LengthOk (sof0 shiftBack input) ∧ LengthOk (dht input) ∧ LengthOk (sos input) := by
  have hbyte : ∀ n : Nat, n < 256 → bendGetShort 0 n.toUInt8 = n := by
    intro n hn
    rw [bendGetShort, Nat.toUInt8_eq, UInt8.toNat_ofNat', Nat.mod_eq_of_lt hn]
    exact Nat.zero_add n
  refine ⟨?_, dht_spec.2, ?_⟩
  · rw [LengthOk, length_sof0]
    show bendGetShort 0 (8 + numComponents input * 3).toUInt8 + 2 = _
    rw [hbyte _ (by lia)]
    lia
  · rw [LengthOk, length_sos]
    show bendGetShort 0 (3 + numComponents input * 2 + 3).toUInt8 + 2 = _
    rw [hbyte _ (by lia)]
    lia

theorem length_header (h : IsShort input) :
    (header shiftBack input).length = headerSize (numComponents input) := by
  rw [header, if_pos h, List.length_append, List.length_append, List.length_append,
    List.length_append, length_sof0, length_dqts, dht_spec.1, length_sos, headerSize]
  by_cases hn : 1 < numComponents input
  · rw [if_pos hn, if_pos hn, if_pos hn]
    show 20 + _ + _ + _ + _ = _
    lia
  · rw [if_neg hn, if_neg hn, if_neg hn]
    show 20 + _ + _ + _ + _ = _
    lia

theorem headerSize_bounds (input : List UInt8) :
    319 ≤ headerSize (numComponents input) ∧ headerSize (numComponents input) ≤ 1871 := by
  have hlt := numComponents_lt input
  rw [headerSize]
  by_cases hn : 1 < numComponents input
  · rw [if_pos hn]
    lia
  · rw [if_neg hn]
    lia

/-- **How much is copied**: the growth of the header is taken from the input where its removed part
should be; where the input is smaller than the growth, the buffer is filled. -/
theorem copyLen_eq {n : Nat} (hshort : IsShort input) (hn : 319 ≤ n ∧ n ≤ 1871)
    (hdword : input.length < 2 ^ 32) :
    copyLen n input = if n ≤ input.length + lenShortHeader
      then min (lenHeaderBuffer - n) (input.length + lenShortHeader - n)
      else lenHeaderBuffer - n := by
  have hgrown : dwordSub n lenShortHeader = n - lenShortHeader := by
    rw [dwordSub]
    lia
  have hroom : dwordSub lenHeaderBuffer n = lenHeaderBuffer - n := by
    rw [dwordSub]
    lia
  rw [copyLen, lenRemovedHeader, if_pos hshort, hgrown, hroom]
  by_cases hle : n ≤ input.length + lenShortHeader
  · have hlen : dwordSub input.length (n - lenShortHeader)
        = input.length + lenShortHeader - n := by
      rw [dwordSub]
      lia
    rw [if_pos hle, hlen]
    show (if _ then _ else _) = _
    by_cases hlarge : lenHeaderBuffer - n < input.length + lenShortHeader - n
    · rw [if_pos hlarge, Nat.min_eq_left (Nat.le_of_lt hlarge)]
    · rw [if_neg hlarge, Nat.min_eq_right (Nat.not_lt.mp hlarge)]
  · have hlen : lenHeaderBuffer - n < dwordSub input.length (n - lenShortHeader) := by
      rw [dwordSub]
      lia
    rw [if_neg hle]
    exact if_pos hlen

end Lengths

/-! ## The accounts -/

section Accounts

variable {shiftBack : Nat → Nat → Nat} {slave : Slave} {input : List UInt8} {len : Nat}

theorem accounts_copied (hlen : copyLen (header shiftBack input).length input = len)
    (hroom : (header shiftBack input).length + len ≤ lenHeaderBuffer)
    (hin : lenRemovedHeader input + len ≤ input.length) :
    Accounts shiftBack slave input (getActualTraits shiftBack slave input) ↔ ∀ used nextPos,
      slave (header shiftBack input ++ (input.drop (lenRemovedHeader input)).take len)
          = some (used, nextPos) →
        (IsShort input →
            LengthOk (sof0 shiftBack input) ∧ LengthOk (dht input) ∧ LengthOk (sos input))
          ∧ (input.drop (lenRemovedHeader input)).take len
              = (input.drop (lenRemovedHeader input)).take
                  (lenHeaderBuffer - (header shiftBack input).length)
          ∧ dwordSub used (dwordSub (header shiftBack input).length (lenRemovedHeader input))
                + (header shiftBack input).length = used + lenRemovedHeader input
          ∧ dwordSub nextPos (dwordSub (header shiftBack input).length (lenRemovedHeader input))
                + (header shiftBack input).length = nextPos + lenRemovedHeader input := by
  have hinside : ¬ (lenHeaderBuffer < (header shiftBack input).length + len
      ∨ input.length < lenRemovedHeader input + len) := by
    rintro (h | h)
    · exact Nat.not_le.mpr h hroom
    · exact Nat.not_le.mpr h hin
  have hrun : getActualTraits shiftBack slave input
      = match slave (header shiftBack input
          ++ (input.drop (lenRemovedHeader input)).take len) with
        | none => .failed
        | some (used, nextPos) =>
          .done (header shiftBack input ++ (input.drop (lenRemovedHeader input)).take len)
            (dwordSub used (dwordSub (header shiftBack input).length (lenRemovedHeader input)))
            (dwordSub nextPos
              (dwordSub (header shiftBack input).length (lenRemovedHeader input))) := by
    rw [getActualTraits, hlen]
    exact if_neg hinside
  rw [hrun]
  cases hs : slave (header shiftBack input
      ++ (input.drop (lenRemovedHeader input)).take len) with
  | none => exact iff_of_true trivial nofun
  | some r =>
    obtain ⟨used, nextPos⟩ := r
    constructor
    · rintro ⟨hlengths, hcopied, used', nextPos', hs', hused, hnext⟩ u n hun
      obtain ⟨rfl, rfl⟩ := Prod.mk.inj (Option.some.inj hun)
      obtain ⟨rfl, rfl⟩ := Prod.mk.inj (Option.some.inj (hs.symm.trans hs'))
      exact ⟨hlengths, List.append_cancel_left hcopied, hused, hnext⟩
    · intro h
      obtain ⟨hlengths, hcopied, hused, hnext⟩ := h used nextPos rfl
      exact ⟨hlengths, congrArg (header shiftBack input ++ ·) hcopied, used, nextPos, hs, hused,
        hnext⟩

theorem accounts_other (hother : ¬ IsShort input) (hdword : input.length < 2 ^ 32)
    (hs : IsDecoder shiftBack slave) :
    Accounts shiftBack slave input (getActualTraits shiftBack slave input) := by
  have hheader : header shiftBack input = [] := if_neg hother
  have hremoved : lenRemovedHeader input = 0 := if_neg hother
  have hzero : ∀ n, n < 2 ^ 32 → dwordSub n (dwordSub 0 0) = n := by
    intro n hn
    rw [dwordSub, dwordSub]
    lia
  have hlen : copyLen (header shiftBack input).length input
      = min lenHeaderBuffer input.length := by
    have hroom : dwordSub lenHeaderBuffer 0 = lenHeaderBuffer := by decide
    rw [copyLen, hheader, hremoved, List.length_nil, hzero _ hdword, hroom]
    show (if _ then _ else _) = _
    by_cases hlt : lenHeaderBuffer < input.length
    · rw [if_pos hlt, Nat.min_eq_left (Nat.le_of_lt hlt)]
    · rw [if_neg hlt, Nat.min_eq_right (Nat.not_lt.mp hlt)]
  rw [accounts_copied hlen (by rw [hheader, List.length_nil]; lia) (by rw [hremoved]; lia)]
  intro used nextPos hrun
  obtain ⟨hused, hnext⟩ := hs.dword _ _ hrun
  rw [hheader, hremoved, List.length_nil, hzero used hused, hzero nextPos hnext]
  refine ⟨fun h => absurd h hother, ?_, rfl, rfl⟩
  rw [List.take_eq_take_iff, List.length_drop]
  lia

theorem copyLen_short (shiftBack : Nat → Nat → Nat) (hshort : IsShort input)
    (hdword : input.length < 2 ^ 32) :
    copyLen (header shiftBack input).length input
      = if headerSize (numComponents input) ≤ input.length + lenShortHeader
        then min (lenHeaderBuffer - headerSize (numComponents input))
          (input.length + lenShortHeader - headerSize (numComponents input))
        else lenHeaderBuffer - headerSize (numComponents input) := by
  rw [length_header hshort]
  exact copyLen_eq hshort (headerSize_bounds input) hdword

theorem accounts_of_filled (hshort : IsShort input) (hdword : input.length < 2 ^ 32)
    (hfilled : Filled input) (hs : IsDecoder shiftBack slave) :
    Accounts shiftBack slave input (getActualTraits shiftBack slave input) := by
  have hremoved : lenRemovedHeader input = lenShortHeader := if_pos hshort
  obtain ⟨hlow, hhigh⟩ := headerSize_bounds input
  have hcond := hfilled hshort
  have hfits : headerSize (numComponents input) ≤ input.length + lenShortHeader := by
    rcases hcond with hfull | ⟨-, hfits⟩
    · lia
    · exact hfits
  have hlen := copyLen_short shiftBack hshort hdword
  rw [if_pos hfits] at hlen
  rw [accounts_copied hlen (by rw [length_header hshort]; lia) (by rw [hremoved]; lia)]
  intro used nextPos hrun
  have hcomps : 1 ≤ numComponents input ∧ numComponents input ≤ 4 := by
    by_contra hno
    rw [hs.components input _ hshort hno] at hrun
    cases hrun
  -- the decoder has not failed, so that the buffer must be full
  have hfull : lenHeaderBuffer ≤ input.length + lenShortHeader :=
    hcond.resolve_right fun h => h.1 hcomps
  obtain ⟨rfl, rfl⟩ := Prod.mk.inj (hs.stops input _ _ hshort hrun)
  have hback : dwordSub (header shiftBack input).length
      (dwordSub (header shiftBack input).length (lenRemovedHeader input))
        = lenRemovedHeader input := by
    rw [length_header hshort, hremoved, dwordSub, dwordSub]
    lia
  refine ⟨fun _ => lengths_ok (Nat.le_trans hcomps.2 (by decide)), ?_, ?_, ?_⟩
  · rw [length_header hshort, Nat.min_eq_left (by lia)]
  · rw [hback, Nat.add_comm]
  · rw [hback, Nat.add_comm]

def countingSlave : Slave := fun buf =>
  let n := (buf.getD 29 0).toNat
  if 1 ≤ n ∧ n ≤ 4 then some (headerSize n, headerSize n) else none

theorem countingSlave_header (hshort : IsShort input) (rest : List UInt8) :
    countingSlave (header shiftBack input ++ rest)
      = if 1 ≤ numComponents input ∧ numComponents input ≤ 4
        then some (headerSize (numComponents input), headerSize (numComponents input))
        else none := by
  have hbyte : (header shiftBack input ++ rest).getD 29 0 = (numComponents input).toUInt8 := by
    rw [header, if_pos hshort]
    rfl
  have hn : (numComponents input).toUInt8.toNat = numComponents input := by
    rw [Nat.toUInt8_eq, UInt8.toNat_ofNat', Nat.mod_eq_of_lt (numComponents_lt input)]
  rw [countingSlave, hbyte, hn]

theorem countingSlave_isDecoder (shiftBack : Nat → Nat → Nat) :
    IsDecoder shiftBack countingSlave := by
  constructor
  · intro input rest hshort hno
    rw [countingSlave_header hshort]
    exact if_neg hno
  · intro input rest r hshort hrun
    rw [countingSlave_header hshort] at hrun
    rw [length_header hshort]
    exact (Option.some.inj (Option.ite_none_right_eq_some.mp hrun).2).symm
  · intro buf r hrun
    obtain ⟨⟨-, hn⟩, hr⟩ := Option.ite_none_right_eq_some.mp hrun
    have hsize : headerSize (buf.getD 29 0).toNat < 2 ^ 32 := by
      rw [headerSize]
      by_cases h : 1 < (buf.getD 29 0).toNat
      · rw [if_pos h]
        lia
      · rw [if_neg h]
        lia
    rw [← Option.some.inj hr]
    exact ⟨hsize, hsize⟩

theorem not_accounts (hshort : IsShort input) (hdword : input.length < 2 ^ 32)
    (hfilled : ¬ Filled input) :
    ¬ Accounts shiftBack countingSlave input
      (getActualTraits shiftBack countingSlave input) := by
  have hremoved : lenRemovedHeader input = lenShortHeader := if_pos hshort
  obtain ⟨hlow, hhigh⟩ := headerSize_bounds input
  obtain ⟨hnotfull, hno⟩ := not_or.mp fun h => hfilled fun _ => h
  have hlen := copyLen_short shiftBack hshort hdword
  by_cases hfits : headerSize (numComponents input) ≤ input.length + lenShortHeader
  · -- less is copied than there is
    have hcomps : 1 ≤ numComponents input ∧ numComponents input ≤ 4 := by
      by_contra hcomps
      exact hno ⟨hcomps, hfits⟩
    rw [if_pos hfits, Nat.min_eq_right (by lia)] at hlen
    rw [accounts_copied hlen (by rw [length_header hshort]; lia) (by rw [hremoved]; lia)]
    intro h
    have hcopied := (h _ _ ((countingSlave_header hshort _).trans (if_pos hcomps))).2.1
    rw [List.take_eq_take_iff, List.length_drop, hremoved, length_header hshort] at hcopied
    lia
  · -- the difference is negative, and the whole buffer is filled
    rw [if_neg hfits] at hlen
    have houtside : getActualTraits shiftBack countingSlave input = .outside := by
      rw [getActualTraits, hlen]
      refine if_pos (.inr ?_)
      rw [hremoved]
      lia
    rw [houtside]
    exact id

/-- **Every byte is accounted for** by any decoder just if the input fills the header buffer, or has
no short header, or the decoder turns the header down and no byte behind the input is read. -/
theorem accounts_iff (shiftBack : Nat → Nat → Nat) (input : List UInt8)
    (hdword : input.length < 2 ^ 32) :
    (∀ slave, IsDecoder shiftBack slave →
        Accounts shiftBack slave input (getActualTraits shiftBack slave input)) ↔ Filled input := by
  by_cases hshort : IsShort input
  · constructor
    · intro h
      by_contra hfilled
      exact not_accounts hshort hdword hfilled
        (h countingSlave (countingSlave_isDecoder shiftBack))
    · intro hfilled slave hs
      exact accounts_of_filled hshort hdword hfilled hs
  · exact iff_of_true (fun slave hs => accounts_other hshort hdword hs)
      fun h => absurd h hshort

end Accounts

def shortHeader : List UInt8 :=
  [0xff, 0xd8, 0xff, 0xe1, 0, 0x12, 0, 8, 0, 8, 1, 44, 1, 44, 20, 1, 0x11, 0x11, 0x11, 0x11, 20, 0]

theorem shortHeader_length : shortHeader.length = 22 := rfl

theorem accounts_full : Accounts (fun _ _ => 0) countingSlave
    (shortHeader ++ List.replicate 16956 0)
    (getActualTraits (fun _ _ => 0) countingSlave (shortHeader ++ List.replicate 16956 0)) := by
  have hlen : (shortHeader ++ List.replicate 16956 0).length = 16978 := by
    rw [List.length_append, List.length_replicate, shortHeader_length]
  have hdword : (shortHeader ++ List.replicate 16956 0).length < 2 ^ 32 := by
    rw [hlen]
    decide
  have hfilled : Filled (shortHeader ++ List.replicate 16956 0) := by
    intro _
    left
    rw [hlen]
    decide
  exact (accounts_iff (fun _ _ => 0) (shortHeader ++ List.replicate 16956 0) hdword).mpr hfilled
    countingSlave (countingSlave_isDecoder fun _ _ => 0)

/-- With nothing behind the short header more than ten thousand bytes behind the input are read. -/
theorem shortHeader_reads_on : ¬ ∀ shiftBack input, input.length < 2 ^ 32 →
    ∀ slave, IsDecoder shiftBack slave →
      Accounts shiftBack slave input (getActualTraits shiftBack slave input) := by
  intro h
  have hshort : IsShort shortHeader := ⟨Nat.le_refl 22, rfl⟩
  have hdword : shortHeader.length < 2 ^ 32 := by
    rw [shortHeader_length]
    decide
  have hnotfilled : ¬ Filled shortHeader := by
    intro hfilled
    rcases hfilled hshort with hfull | ⟨hno, -⟩
    · rw [shortHeader_length] at hfull
      exact absurd hfull (by decide)
    · exact hno ⟨by decide, by decide⟩
  have hall := h (fun _ _ => 0) shortHeader hdword countingSlave
    (countingSlave_isDecoder fun _ _ => 0)
  exact not_accounts hshort hdword hnotfilled hall

end Hplip.Ip.JpegFix
