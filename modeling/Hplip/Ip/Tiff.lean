import Hplip.Lib.Faults
import Hplip.Lib.LittleEndian
import Hplip.Ip.Ipmain

/-!
# Decoding a TIFF file (xtiff.c)

The decoder parses the first directory of the file where it lies: a field of another byte order
is swapped in the buffer before it is read. An access outside the buffer and a division by zero
are faults; `INSURE` gives up.

The machine is little-endian. The buffer is all that `dwInputAvail` counts.
-/

namespace Hplip.Ip.Tiff

open Faults LittleEndian

/-! ## The state -/

abbrev checkValue : Nat := 0x1ce5ca7e

/-- The part of `TIF_INST` that the decoder uses. -/
structure TifInst where
  traits : IpImageTraits
  iBitsPerSample : Int
  bByteSwap : Bool
  dwRawRowBytes : Nat
  dwRowsDone : Nat
  dwValidChk : Nat
  dwInNextPos : Nat
  dwOutNextPos : Nat

structure Parsing where
  g : TifInst
  buf : List UInt8
  dwImageOffset : Nat

/-- A computation that gives up with `IP_FATAL_ERROR`. -/
abbrev Parser := Comp Unit Parsing

def insure (p : Prop) [Decidable p] : Parser Unit := if p then pure () else giveUp ()

/-! ## Memory -/

def exchange (buf : List UInt8) (i j : Nat) : List UInt8 :=
  (buf.set i (buf.getD j 0)).set j (buf.getD i 0)

/-- `ByteSwap` for four bytes. -/
def swapped4 (buf : List UInt8) (i : Nat) : List UInt8 :=
  exchange (exchange buf (i + 1) (i + 2)) i (i + 3)

/-- What `ByteSwap` makes of the buffer. Eight bytes are two longs, so each one is fixed. -/
def swapped (buf : List UInt8) (i : Nat) : Nat → List UInt8
  | 2 => exchange buf i (i + 1)
  | 4 => swapped4 buf i
  | 8 => swapped4 (swapped4 buf i) (i + 4)
  | _ => buf

/-- An access to `k` bytes. -/
def access (i k : Nat) : Parser Unit := do
  let s ← get
  if i + k ≤ s.buf.length then pure () else fault

/-- A number of `k` bytes. -/
def read (i k : Nat) : Parser Nat := do
  access i k
  let s ← get
  return littleEndian s.buf i k

/-- `ByteSwap` of a variable of more than one byte. -/
def byteSwap (i k : Nat) : Parser Unit := do
  access i k
  modify fun s => { s with buf := swapped s.buf i k }

/-- `ByteSwap`, if the bytes are in the wrong order. -/
def fixed (i k : Nat) : Parser Unit := do
  let s ← get
  if s.g.bByteSwap then byteSwap i k else pure ()

/-- The value of the `int` of 32 bits with the bits of a number. -/
@[irreducible] def int32 (n : Int) : Int := (n + 2 ^ 31) % 2 ^ 32 - 2 ^ 31

/-! ## A tag -/

abbrev tiffByte : Nat := 1
abbrev tiffShort : Nat := 3
abbrev tiffLong : Nat := 4
abbrev tiffRational : Nat := 5
abbrev tiffSbyte : Nat := 6
abbrev tiffUndefined : Nat := 7
abbrev tiffSshort : Nat := 8
abbrev tiffSlong : Nat := 9
abbrev tiffSrational : Nat := 10

/-- The bytes of an item of a kind, if it is one of those that are known. -/
def typeBytes : Nat → Option Nat
  | 7 => some 1
  | 1 => some 1
  | 6 => some 1
  | 3 => some 2
  | 8 => some 2
  | 4 => some 4
  | 9 => some 4
  | 5 => some 8
  | 10 => some 8
  | _ => none

/-- The loop that swaps the items of a value, from the `i`-th one on. The distance of an item is
a product of two `int`s. -/
def swapItems (pValue k : Nat) : Nat → Nat → Parser Unit
  | _, 0 => pure ()
  | i, n + 1 => do
    let pos : Int := pValue + int32 (i * k)
    -- one byte has no order
    if k = 1 then pure ()
    else if pos < 0 then fault
    else byteSwap pos.toNat k
    swapItems pValue k (i + 1) n

def fixItems (pValue k count : Nat) : Parser Unit := do
  let s ← get
  if s.g.bByteSwap then swapItems pValue k 0 (int32 count).toNat else pure ()

/-- A `RATIONAL` as an `int`. -/
def readFraction (pValue : Nat) : Parser Int := do
  let n ← read pValue 4
  let d ← read (pValue + 4) 4
  if d = 0 then fault else return int32 (n / d : Nat)

/-- An item of another kind as an `int`. -/
def readInteger (kind pValue : Nat) : Parser Int := do
  let v ← read pValue ((typeBytes kind).getD 0)
  if kind = tiffSbyte ∧ 2 ^ 7 ≤ v then return (v : Int) - 2 ^ 8
  else if kind = tiffSshort ∧ 2 ^ 15 ≤ v then return (v : Int) - 2 ^ 16
  else return int32 v

def IsFraction (kind : Nat) : Prop := kind = tiffRational ∨ kind = tiffSrational

instance (kind : Nat) : Decidable (IsFraction kind) := inferInstanceAs (Decidable (_ ∨ _))

/-- The value of a tag: its first item, as an `int`. -/
def readValue (kind pValue : Nat) : Parser Int :=
  if IsFraction kind then readFraction pValue else readInteger kind pValue

abbrev newSubfile : Nat := 254
abbrev imageWidth : Nat := 256
abbrev imageLength : Nat := 257
abbrev bitsPerSample : Nat := 258
abbrev compression : Nat := 259
abbrev stripOffsets : Nat := 273
abbrev samplesPerPixel : Nat := 277
abbrev xResolution : Nat := 282
abbrev yResolution : Nat := 283

def keepValue (id count : Nat) (value : Int) : Parser Unit := do
  let traits (f : IpImageTraits → IpImageTraits) : Parser Unit :=
    modify fun s => { s with g := { s.g with traits := f s.g.traits } }
  if id = imageWidth then traits fun t => { t with iPixelsPerRow := value }
  else if id = imageLength then traits fun t => { t with lNumRows := value }
  else if id = bitsPerSample then
    modify fun s => { s with g := { s.g with iBitsPerSample := value } }
  -- we only support uncompressed
  else if id = compression then insure (value = 1)
  else if id = stripOffsets then
    -- we only support one strip
    insure (count = 1)
    modify fun s => { s with dwImageOffset := (value % 2 ^ 32).toNat }
  else if id = samplesPerPixel then traits fun t => { t with iComponentsPerPixel := value }
  else if id = xResolution then traits fun t => { t with lHorizDPI := int32 (value * 2 ^ 16) }
  else if id = yResolution then traits fun t => { t with lVertDPI := int32 (value * 2 ^ 16) }
  else pure ()

/-- Where the value of a tag is: in the tag, if it fits there, else where the tag says. -/
def valuePos (pTag : Nat) (nValueBytes : Int) : Parser Nat :=
  if nValueBytes ≤ 4 then pure (pTag + 8)
  else do
    fixed (pTag + 8) 4
    read (pTag + 8) 4

/-- The value of a tag of so many items of `nTypeBytes` bytes. -/
def parseValue (pTag id kind count nTypeBytes : Nat) : Parser Unit := do
  let pValue ← valuePos pTag (int32 (count * nTypeBytes))
  let s ← get
  insure (0 < pValue ∧ pValue < s.buf.length)
  fixItems pValue nTypeBytes count
  let value ← readValue kind pValue
  keepValue id count value

def parseTag (pTag : Nat) : Parser Unit := do
  fixed pTag 2
  fixed (pTag + 2) 2
  fixed (pTag + 4) 4
  let id ← read pTag 2
  let kind ← read (pTag + 2) 2
  let count ← read (pTag + 4) 4
  match typeBytes kind with
  | none => giveUp ()
  | some nTypeBytes => parseValue pTag id kind count nTypeBytes

def parseTags : Nat → Nat → Parser Unit
  | _, 0 => pure ()
  | pTag, n + 1 => do
    parseTag pTag
    parseTags (pTag + 12) n

/-! ## The header -/

/-- The letters `I` and `M`. -/
def IsOrder (b : Nat) : Prop := b = 0x49 ∨ b = 0x4d

instance (b : Nat) : Decidable (IsOrder b) := inferInstanceAs (Decidable (_ ∨ _))

/-- The bytes of a row, with the arithmetic of `int`. -/
def rawRowBytes (iBitsPerPixel iPixelsPerRow : Int) : Nat :=
  ((int32 (int32 (iBitsPerPixel * iPixelsPerRow) + 7)).tdiv 8 % 2 ^ 32).toNat

def finishTraits : Parser Unit := do
  let s ← get
  insure (s.g.iBitsPerSample = 1 ∨ s.g.iBitsPerSample = 8 ∨ s.g.iBitsPerSample = 16)
  let iBitsPerPixel := int32 (s.g.iBitsPerSample * s.g.traits.iComponentsPerPixel)
  insure (s.dwImageOffset ≤ s.buf.length)
  modify fun s => { s with g := { s.g with
    traits := { s.g.traits with iBitsPerPixel := iBitsPerPixel }
    dwRawRowBytes := rawRowBytes iBitsPerPixel s.g.traits.iPixelsPerRow
    dwInNextPos := s.dwImageOffset } }

/-- `tifDecode_getActualTraits`. The traits are those of the instance after it, and the input
goes on at `dwInNextPos`. -/
def getActualTraits : Parser Unit := do
  let s ← get
  insure (s.g.dwValidChk = checkValue)
  let first ← read 0 1
  insure (IsOrder first)
  let second ← read 1 1
  insure (IsOrder second)
  modify fun s => { s with g := { s.g with bByteSwap := first = 0x4d } }
  fixed 4 4
  let offsetFirstIFD ← read 4 4
  insure (offsetFirstIFD < s.buf.length)
  fixed offsetFirstIFD 2
  let nTags ← read offsetFirstIFD 2
  insure (0 < nTags ∧ nTags < 100)
  insure (nTags * 12 < s.buf.length)
  modify fun s => { s with dwImageOffset := 0 }
  parseTags (offsetFirstIFD + 2) nTags
  finishTraits

/-! ## Rows -/

/-- What a call of `convert` leaves behind. -/
structure Converted where
  result : UInt16
  inUsed : Nat
  outBytes : List UInt8
  inBuf : List UInt8
  g : TifInst

/-- The loop of `tifDecode_convert` that swaps the 16-bit words of a row, two at a time, from a
position on and for at most so many rounds. -/
def swapWords (n : Nat) : Nat → Nat → List UInt8 → Except (Stop Unit) (List UInt8)
  | 0, _, buf => .ok buf
  | rounds + 1, pb, buf =>
    if pb < n then
      if pb + 4 ≤ buf.length then
        swapWords n rounds (pb + 4) (exchange (exchange buf pb (pb + 1)) (pb + 2) (pb + 3))
      else .error .fault
    else .ok buf

/-- `tifDecode_convert`, with room for so many bytes. -/
def convert (g : TifInst) (pbInputBuf : Option (List UInt8)) (dwOutputAvail : Nat) :
    Except (Stop Unit) Converted :=
  if g.dwValidChk ≠ checkValue then .error (.gaveUp ())
  else match pbInputBuf with
  | none => .ok ⟨ipDone, 0, [], [], g⟩
  | some buf =>
    let n := g.dwRawRowBytes
    if buf.length < n then
      -- we got a partial row at the end: just toss it
      .ok ⟨ipReadyForData, buf.length, [], buf,
        { g with dwInNextPos := (g.dwInNextPos + buf.length) % 2 ^ 32 }⟩
    else if dwOutputAvail < n then .error (.gaveUp ())
    else do
      let outBytes := buf.take n
      -- the row has been copied before its words are swapped
      let buf ← if g.bByteSwap ∧ g.iBitsPerSample = 16 then swapWords n n 0 buf else .ok buf
      .ok ⟨ipConsumedRow ||| ipProducedRow ||| ipReadyForData, n, outBytes, buf,
        { g with
          dwOutNextPos := (g.dwOutNextPos + n) % 2 ^ 32
          dwInNextPos := (g.dwInNextPos + n) % 2 ^ 32
          dwRowsDone := (g.dwRowsDone + 1) % 2 ^ 32 }⟩

/-- The calls of `convert`, the rows of an image. At each call the buffer holds what the call
before it has left there, and the bytes that have come since. -/
def decodeRows (g : TifInst) : List UInt8 → List (List UInt8) →
    Except (Stop Unit) (List (List UInt8))
  | _, [] => .ok []
  | left, come :: more => do
    let c ← convert g (some (left ++ come)) g.dwRawRowBytes
    let rows ← decodeRows c.g (c.inBuf.drop c.inUsed) more
    .ok (c.outBytes :: rows)

end Hplip.Ip.Tiff
