import Mathlib
import Hplip.Lib.Loop

/-!
# The fax encoder (xfax.c, first half)

A bi-level row is a list of bytes, the leftmost pixel in the highest bit, 1 for black; the
list goes on behind the row as far as memory may be read. The encoder writes codes through
a 32-bit buffer and takes whole bytes out of it.

The encoder stores a sentinel into the rows it reads, so the functions on rows return them.
A `Fault` is what C leaves undefined: an argument that the callee does not allow, an access
outside the memory that is there.
-/

namespace Hplip.Ip

/-! ## Shared by the encoder and the decoder -/

/-- `IP_FAX_MH`, `IP_FAX_MR`, `IP_FAX_MMR`. -/
inductive FaxFormat
  | mh
  | mr
  | mmr
  deriving DecidableEq, Repr

inductive Fault
  /-- `scan_to` was called with a start outside of `0..pixels_in_row+1`. -/
  | scanTo (startPos : Int)
  /-- `set_run` was called with a start below 0, or reaches behind the slack byte. -/
  | setRun (startPos runLen : Int)
  /-- `BITS_LOAD` asked for more bits than the cache holds. -/
  | bitsLoad (numBits : Nat)
  /-- A byte behind the end of the memory was read or written. -/
  | outside
  /-- A loop did not end in the rounds it was given. -/
  | rounds
  deriving DecidableEq, Repr

/-- `INSURE (cond)`: a call that fails it ends with `IP_FATAL_ERROR`. -/
inductive Called (α : Type)
  | fatalError
  | returned (a : α)
  deriving DecidableEq

/-- `baLeftZeroesTbl`: the number of leading zeroes in a byte. -/
def baLeftZeroesTbl (b : UInt8) : Nat :=
  if b = 0 then 8
  else if b < 0x02 then 7
  else if b < 0x04 then 6
  else if b < 0x08 then 5
  else if b < 0x10 then 4
  else if b < 0x20 then 3
  else if b < 0x40 then 2
  else if b < 0x80 then 1
  else 0

/-- The byte of all-ones or all-zeroes that `skip` stands for. -/
def skipByte (skip : Bool) : UInt8 := if skip then 0xFF else 0x00

/-- The `do`-loop of `scan_to`: the first byte that is not `skip`, with its index. -/
def scanBytes (skip : Bool) : List UInt8 → Nat → Except Fault (UInt8 × Nat)
  | [], _ => .error .outside
  | byte :: rest, i =>
    if byte = skipByte skip then scanBytes skip rest (i + 1) else .ok (byte ^^^ skipByte skip, i)

/-- `scan_to`: scan rightward over pixels of one colour (`true` is black). -/
def scanTo (skip : Bool) (buf : List UInt8) (startPos : Int) (pixelsInRow : Nat) :
    Except Fault Nat :=
  if startPos < 0 ∨ (pixelsInRow : Int) + 1 < startPos then .error (.scanTo startPos)
  else
    match buf.drop (startPos.toNat / 8) with
    | [] => .error .outside
    | first :: rest => do
      let byte := (first ^^^ skipByte skip) &&& (0xFF >>> UInt8.ofNat (startPos.toNat % 8))
      let (byte, i) ←
        if byte = 0 then scanBytes skip rest (startPos.toNat / 8 + 1)
        else .ok (byte, startPos.toNat / 8)
      .ok (min (8 * i + baLeftZeroesTbl byte) pixelsInRow)

/-- `buf[i] = b`. -/
def store (buf : List UInt8) (i : Nat) (b : UInt8) : Except Fault (List UInt8) :=
  if i < buf.length then .ok (buf.set i b) else .error .outside

/-! ## Outputting bits -/

/-- `ENC_INST`. The bytes from `pbBufStart` to `pbOutByte` are `pbOut`. -/
structure EncInst where
  dwInNextPos : UInt32
  dwOutNextPos : UInt32
  iRowLen : Nat
  wOutFmt : FaxFormat
  w12Cycle : Nat
  wMinBits : Nat
  iRowNum : Nat
  priorP : Option (List UInt8)
  pbOut : List UInt8
  dwBitBuffer : Nat
  wBitsAvail : Nat
  deriving DecidableEq

/-- One round of the loop in `write_bytes`. -/
def writeByte (g : EncInst) : EncInst :=
  { g with
    pbOut := g.pbOut ++ [UInt8.ofNat (g.dwBitBuffer >>> 24)]
    dwBitBuffer := (g.dwBitBuffer <<< 8) % 2 ^ 32
    wBitsAvail := g.wBitsAvail + 8 }

/-- The loop of `write_bytes`, for at most so many rounds. -/
def writeBytesLoop : Nat → EncInst → EncInst
  | 0, g => g
  | rounds + 1, g =>
    let g := writeByte g
    if g.wBitsAvail ≤ 24 then writeBytesLoop rounds g else g

/-- `write_bytes`: the buffer holds four bytes. -/
def writeBytes (g : EncInst) : EncInst := writeBytesLoop 4 g

/-- `put_bits`: the low-order `length` bits of `bits`. -/
def putBits (g : EncInst) (length bits : Nat) : EncInst :=
  let g := if g.wBitsAvail < length then writeBytes g else g
  { g with
    wBitsAvail := g.wBitsAvail - length
    dwBitBuffer := g.dwBitBuffer ||| bits <<< (g.wBitsAvail - length) }

def putFlush (g : EncInst) : EncInst :=
  if g.wBitsAvail < 32 then writeBytes { g with wBitsAvail := g.wBitsAvail / 8 * 8 } else g

/-- `put_fill_bits`: up to the minimum number of bits of a row. -/
def putFillBits (g : EncInst) : EncInst :=
  let g := putFlush g
  let iMore : Int := g.wMinBits - 8 * g.pbOut.length
  if 0 < iMore then { g with pbOut := g.pbOut ++ List.replicate ((iMore + 7) / 8).toNat 0 } else g

/-! ## Codes -/

structure HuffT where
  bits : Nat
  length : Nat
  deriving DecidableEq, Repr

instance : Inhabited HuffT := ⟨⟨0, 0⟩⟩

/-- `MHWhiteRuns`: run-length = index, index is in 0..63. -/
def mhWhiteRuns : List HuffT :=
  [⟨0x35, 8⟩, ⟨0x7, 6⟩, ⟨0x7, 4⟩, ⟨0x8, 4⟩, ⟨0xb, 4⟩, ⟨0xc, 4⟩, ⟨0xe, 4⟩, ⟨0xf, 4⟩, ⟨0x13, 5⟩,
   ⟨0x14, 5⟩, ⟨0x7, 5⟩, ⟨0x8, 5⟩, ⟨0x8, 6⟩, ⟨0x3, 6⟩, ⟨0x34, 6⟩, ⟨0x35, 6⟩, ⟨0x2a, 6⟩,
   ⟨0x2b, 6⟩, ⟨0x27, 7⟩, ⟨0xc, 7⟩, ⟨0x8, 7⟩, ⟨0x17, 7⟩, ⟨0x3, 7⟩, ⟨0x4, 7⟩, ⟨0x28, 7⟩,
   ⟨0x2b, 7⟩, ⟨0x13, 7⟩, ⟨0x24, 7⟩, ⟨0x18, 7⟩, ⟨0x2, 8⟩, ⟨0x3, 8⟩, ⟨0x1a, 8⟩, ⟨0x1b, 8⟩,
   ⟨0x12, 8⟩, ⟨0x13, 8⟩, ⟨0x14, 8⟩, ⟨0x15, 8⟩, ⟨0x16, 8⟩, ⟨0x17, 8⟩, ⟨0x28, 8⟩, ⟨0x29, 8⟩,
   ⟨0x2a, 8⟩, ⟨0x2b, 8⟩, ⟨0x2c, 8⟩, ⟨0x2d, 8⟩, ⟨0x4, 8⟩, ⟨0x5, 8⟩, ⟨0xa, 8⟩, ⟨0xb, 8⟩,
   ⟨0x52, 8⟩, ⟨0x53, 8⟩, ⟨0x54, 8⟩, ⟨0x55, 8⟩, ⟨0x24, 8⟩, ⟨0x25, 8⟩, ⟨0x58, 8⟩, ⟨0x59, 8⟩,
   ⟨0x5a, 8⟩, ⟨0x5b, 8⟩, ⟨0x4a, 8⟩, ⟨0x4b, 8⟩, ⟨0x32, 8⟩, ⟨0x33, 8⟩, ⟨0x34, 8⟩]

/-- `MHMakeupWhite`: run-length = 64*(index+1), index is in 0..26. -/
def mhMakeupWhite : List HuffT :=
  [⟨0x1b, 5⟩, ⟨0x12, 5⟩, ⟨0x17, 6⟩, ⟨0x37, 7⟩, ⟨0x36, 8⟩, ⟨0x37, 8⟩, ⟨0x64, 8⟩, ⟨0x65, 8⟩,
   ⟨0x68, 8⟩, ⟨0x67, 8⟩, ⟨0xcc, 9⟩, ⟨0xcd, 9⟩, ⟨0xd2, 9⟩, ⟨0xd3, 9⟩, ⟨0xd4, 9⟩, ⟨0xd5, 9⟩,
   ⟨0xd6, 9⟩, ⟨0xd7, 9⟩, ⟨0xd8, 9⟩, ⟨0xd9, 9⟩, ⟨0xda, 9⟩, ⟨0xdb, 9⟩, ⟨0x98, 9⟩, ⟨0x99, 9⟩,
   ⟨0x9a, 9⟩, ⟨0x18, 6⟩, ⟨0x9b, 9⟩]

/-- `MHBlackRuns`: run-length = index, index is in 0..63. -/
def mhBlackRuns : List HuffT :=
  [⟨0x37, 10⟩, ⟨0x2, 3⟩, ⟨0x3, 2⟩, ⟨0x2, 2⟩, ⟨0x3, 3⟩, ⟨0x3, 4⟩, ⟨0x2, 4⟩, ⟨0x3, 5⟩, ⟨0x5, 6⟩,
   ⟨0x4, 6⟩, ⟨0x4, 7⟩, ⟨0x5, 7⟩, ⟨0x7, 7⟩, ⟨0x4, 8⟩, ⟨0x7, 8⟩, ⟨0x18, 9⟩, ⟨0x17, 10⟩,
   ⟨0x18, 10⟩, ⟨0x8, 10⟩, ⟨0x67, 11⟩, ⟨0x68, 11⟩, ⟨0x6c, 11⟩, ⟨0x37, 11⟩, ⟨0x28, 11⟩,
   ⟨0x17, 11⟩, ⟨0x18, 11⟩, ⟨0xca, 12⟩, ⟨0xcb, 12⟩, ⟨0xcc, 12⟩, ⟨0xcd, 12⟩, ⟨0x68, 12⟩,
   ⟨0x69, 12⟩, ⟨0x6a, 12⟩, ⟨0x6b, 12⟩, ⟨0xd2, 12⟩, ⟨0xd3, 12⟩, ⟨0xd4, 12⟩, ⟨0xd5, 12⟩,
   ⟨0xd6, 12⟩, ⟨0xd7, 12⟩, ⟨0x6c, 12⟩, ⟨0x6d, 12⟩, ⟨0xda, 12⟩, ⟨0xdb, 12⟩, ⟨0x54, 12⟩,
   ⟨0x55, 12⟩, ⟨0x56, 12⟩, ⟨0x57, 12⟩, ⟨0x64, 12⟩, ⟨0x65, 12⟩, ⟨0x52, 12⟩, ⟨0x53, 12⟩,
   ⟨0x24, 12⟩, ⟨0x37, 12⟩, ⟨0x38, 12⟩, ⟨0x27, 12⟩, ⟨0x28, 12⟩, ⟨0x58, 12⟩, ⟨0x59, 12⟩,
   ⟨0x2b, 12⟩, ⟨0x2c, 12⟩, ⟨0x5a, 12⟩, ⟨0x66, 12⟩, ⟨0x67, 12⟩]

/-- `MHMakeupBlack`: run-length = 64*(index+1), index is in 0..26. -/
def mhMakeupBlack : List HuffT :=
  [⟨0xf, 10⟩, ⟨0xc8, 12⟩, ⟨0xc9, 12⟩, ⟨0x5b, 12⟩, ⟨0x33, 12⟩, ⟨0x34, 12⟩, ⟨0x35, 12⟩,
   ⟨0x6c, 13⟩, ⟨0x6d, 13⟩, ⟨0x4a, 13⟩, ⟨0x4b, 13⟩, ⟨0x4c, 13⟩, ⟨0x4d, 13⟩, ⟨0x72, 13⟩,
   ⟨0x73, 13⟩, ⟨0x74, 13⟩, ⟨0x75, 13⟩, ⟨0x76, 13⟩, ⟨0x77, 13⟩, ⟨0x52, 13⟩, ⟨0x53, 13⟩,
   ⟨0x54, 13⟩, ⟨0x55, 13⟩, ⟨0x5a, 13⟩, ⟨0x5b, 13⟩, ⟨0x64, 13⟩, ⟨0x65, 13⟩]

/-- `MHExtMakeup`: run-length = 64*(index+28), index is in 0..12. -/
def mhExtMakeup : List HuffT :=
  [⟨0x8, 11⟩, ⟨0xc, 11⟩, ⟨0xd, 11⟩, ⟨0x12, 12⟩, ⟨0x13, 12⟩, ⟨0x14, 12⟩, ⟨0x15, 12⟩,
   ⟨0x16, 12⟩, ⟨0x17, 12⟩, ⟨0x1c, 12⟩, ⟨0x1d, 12⟩, ⟨0x1e, 12⟩, ⟨0x1f, 12⟩]

/-- `VertTbl`: vertical-offset = index-3. -/
def vertTbl : List HuffT :=
  [⟨0x2, 7⟩, ⟨0x2, 6⟩, ⟨0x2, 3⟩, ⟨0x1, 1⟩, ⟨0x3, 3⟩, ⟨0x3, 6⟩, ⟨0x3, 7⟩]

/-- `put_bits` of an entry of a table. -/
def putCode (g : EncInst) (te : HuffT) : EncInst := putBits g te.length te.bits

/-- The first loop of `put_run_routine`, for at most so many rounds: make-up codes for 1792
pixels and more. It returns what is left of the run. -/
def putExtMakeups : Nat → EncInst → Nat → EncInst × Nat
  | 0, g, iRunLen => (g, iRunLen)
  | rounds + 1, g, iRunLen =>
    if 1792 ≤ iRunLen then
      let tpos := min (iRunLen / 64 - 28) 12
      putExtMakeups rounds (putCode g mhExtMakeup[tpos]!) (iRunLen - (tpos + 28) * 64)
    else (g, iRunLen)

def putRunRoutine (g : EncInst) (iRunLen : Nat) (makeupTbl codeTbl : List HuffT) : EncInst :=
  let (g, iRunLen) := putExtMakeups iRunLen g iRunLen
  if 64 ≤ iRunLen then
    putCode (putCode g makeupTbl[iRunLen / 64 - 1]!) codeTbl[iRunLen % 64]!
  else putCode g codeTbl[iRunLen]!

def putRun (g : EncInst) (iRunLen : Nat) (makeupTbl codeTbl : List HuffT) : EncInst :=
  if 64 ≤ iRunLen then putRunRoutine g iRunLen makeupTbl codeTbl else putCode g codeTbl[iRunLen]!

def putWhiteRun (g : EncInst) (iRunLen : Nat) : EncInst :=
  putRun g iRunLen mhMakeupWhite mhWhiteRuns

def putBlackRun (g : EncInst) (iRunLen : Nat) : EncInst :=
  putRun g iRunLen mhMakeupBlack mhBlackRuns

/-- `PutEOL`: 11 zeroes and a one. -/
def putEOL (g : EncInst) : EncInst := putBits g 12 0x001

/-! ## One-dimensional rows -/

/-- The loop of `encode_row_1d`, for at most so many rounds. -/
def encodeRuns (pbPixelRow : List UInt8) (iPixels : Nat) :
    Nat → EncInst → Nat → Bool → Except Fault EncInst
  | 0, _, _, _ => .error .rounds
  | rounds + 1, g, iStartPos, skip =>
    if iStartPos < iPixels then do
      let iChange ← scanTo skip pbPixelRow iStartPos iPixels
      let g := if skip then putBlackRun g (iChange - iStartPos)
        else putWhiteRun g (iChange - iStartPos)
      encodeRuns pbPixelRow iPixels rounds g iChange (!skip)
    else .ok g

/-- `encode_row_1d`, with the row after it. -/
def encodeRow1d (g : EncInst) (pbPixelRow : List UInt8) (iPixels : Nat) (fDoingMR : Bool) :
    Except Fault (EncInst × List UInt8) := do
  let g := putEOL g
  -- the tag-bit after EOL means 1-dim row-data
  let g := if fDoingMR then putBits g 1 1 else g
  let pbPixelRow ← store pbPixelRow (iPixels / 8) 0x55
  let g ← encodeRuns pbPixelRow iPixels (iPixels + 2) g 0 false
  .ok (g, pbPixelRow)

/-! ## Two-dimensional rows -/

/-- The positions of the loop in `encode_row_2d`, and the colour it skips (00=white, FF=black). -/
structure Coding where
  a0 : Nat
  a1 : Nat
  b1 : Nat
  b2 : Nat
  skip : Bool
  deriving DecidableEq, Repr

/-- The bit-array `need`. -/
structure Need where
  a1 : Bool
  b0 : Bool
  b1 : Bool
  b2 : Bool
  deriving DecidableEq, Repr

def putMode (g : EncInst) (pbPixelRow : List UInt8) (iPixels : Nat) (s : Coding) :
    Except Fault (EncInst × Coding × Need) :=
  let iDelta : Int := (s.a1 : Int) - s.b1
  if s.b2 < s.a1 then
    -- pass mode
    .ok (putBits g 4 1, { s with a0 := s.b2, b1 := s.b2 }, ⟨false, false, true, true⟩)
  else if -3 ≤ iDelta ∧ iDelta ≤ 3 then
    -- vertical mode
    let g := putCode g vertTbl[(iDelta + 3).toNat]!
    let need : Need :=
      if s.b2 = s.a1 ∨ iDelta ≤ -2 then ⟨true, true, true, true⟩ else ⟨true, false, false, true⟩
    .ok (g, { s with a0 := s.a1, b1 := s.b2, skip := !s.skip }, need)
  else do
    -- horizontal mode
    let a2 ← scanTo s.skip pbPixelRow (s.a1 + 1 : Nat) iPixels
    let g := putBits g 3 1
    let g := if s.skip then putBlackRun (putWhiteRun g (s.a1 - s.a0)) (a2 - s.a1)
      else putWhiteRun (putBlackRun g (s.a1 - s.a0)) (a2 - s.a1)
    if s.b2 < a2 then .ok (g, { s with a0 := a2 }, ⟨true, true, true, true⟩)
    else if a2 < s.b1 then .ok (g, { s with a0 := a2 }, ⟨true, false, false, false⟩)
    else .ok (g, { s with a0 := a2, b1 := s.b2 }, ⟨true, false, true, true⟩)

def scanIf (need : Bool) (skip : Bool) (buf : List UInt8) (startPos pixelsInRow old : Nat) :
    Except Fault Nat :=
  if need then scanTo skip buf startPos pixelsInRow else .ok old

def nextPositions (pbPixelRow pbRefRow : List UInt8) (iPixels : Nat) (s : Coding) (need : Need) :
    Except Fault Coding := do
  let a1 ← scanIf need.a1 (!s.skip) pbPixelRow (s.a0 + 1) iPixels s.a1
  let b1 ← scanIf need.b0 s.skip pbRefRow s.a0 iPixels s.b1
  let b1 ← scanIf need.b1 (!s.skip) pbRefRow (b1 + 1) iPixels b1
  let b2 ← scanIf need.b2 s.skip pbRefRow (b1 + 1) iPixels s.b2
  .ok { s with a1 := a1, b1 := b1, b2 := b2 }

/-- The loop of `encode_row_2d`, for at most so many rounds. -/
def encodeModes (pbPixelRow pbRefRow : List UInt8) (iPixels : Nat) :
    Nat → EncInst → Coding → Except Fault EncInst
  | 0, _, _ => .error .rounds
  | rounds + 1, g, s => do
    let (g, s, need) ← putMode g pbPixelRow iPixels s
    if iPixels ≤ s.a0 then .ok g
    else do
      let s ← nextPositions pbPixelRow pbRefRow iPixels s need
      encodeModes pbPixelRow pbRefRow iPixels rounds g s

/-- `encode_row_2d`, with the two rows after it. -/
def encodeRow2d (g : EncInst) (pbPixelRow pbRefRow : List UInt8) (iPixels : Nat)
    (fDoingMR : Bool) : Except Fault (EncInst × List UInt8 × List UInt8) := do
  -- the tag-bit after EOL means 2-dim row-data
  let g := if fDoingMR then putBits (putEOL g) 1 0 else g
  let pbPixelRow ← store pbPixelRow (iPixels / 8) 0x55
  let pbRefRow ← store pbRefRow (iPixels / 8) 0x55
  let a1 ← scanTo false pbPixelRow 0 iPixels
  let b1 ← scanTo false pbRefRow 0 iPixels
  let b2 ← scanTo true pbRefRow (b1 + 1 : Nat) iPixels
  let g ← encodeModes pbPixelRow pbRefRow iPixels (iPixels + 2) g ⟨0, a1, b1, b2, true⟩
  .ok (g, pbPixelRow, pbRefRow)

/-! ## The transform -/

/-- `faxEncode_openXform` and `faxEncode_setXformSpec`: the format and the minimum row length. -/
def faxEncodeOpenXform (wOutFmt : FaxFormat) (wMinBits : Nat) : EncInst :=
  ⟨0, 0, 0, wOutFmt, 0, wMinBits % 2 ^ 16, 0, none, [], 0, 32⟩

/-- `faxEncode_getActualTraits` for rows of so many pixels, at a vertical resolution in 16.16
fixed-point. The allowance behind the prior row holds what `malloc` left there. -/
def faxEncodeGetActualTraits (g : EncInst) (iPixelsPerRow : Nat) (lVertDPI : Int)
    (allowance : List UInt8) : EncInst :=
  { g with
    iRowLen := iPixelsPerRow
    -- if vert dpi is unknown (negative), we use cycle-len of 2
    w12Cycle := if lVertDPI < 150 * 2 ^ 16 then 2 else 4
    priorP := if g.wOutFmt = .mh then none
      else some (List.replicate ((iPixelsPerRow + 7) / 8) 0 ++ allowance) }

/-- An `int` product, as 32 bits. -/
def int32 (n : Int) : Int := n.bmod (2 ^ 32)

def worstBufSize (wFmt : FaxFormat) (iRowWidth : Nat) : Int :=
  let expand : Int := if wFmt = .mh then 18 else 24
  int32 (expand * (int32 (iRowWidth + 7)).tdiv 8) / 4 + 4

/-- `faxEncode_getActualBufSizes`: the lengths of the input buffer and of the output buffer. -/
def faxEncodeGetActualBufSizes (g : EncInst) : Nat × Nat :=
  let uWorstBuf := (worstBufSize g.wOutFmt g.iRowLen % 2 ^ 32).toNat
  let uMinBytes := (g.wMinBits + 7) / 8
  ((g.iRowLen + 7) / 8, max uWorstBuf uMinBytes)

/-- What `faxEncode_convert` answers; `outBytes` are the `*pdwOutputUsed` bytes in the output
buffer, and `inBuf` is the input buffer after the call. -/
structure Encoded where
  done : Bool
  inUsed : Nat
  inNextPos : UInt32
  outBytes : List UInt8
  outThisPos : UInt32
  inBuf : List UInt8
  xform : EncInst
  deriving DecidableEq

def putEnding (g : EncInst) : EncInst :=
  match g.wOutFmt with
  | .mh => putEOL^[6] g
  | .mr => (fun g => putBits (putEOL g) 1 1)^[6] g
  | .mmr => putEOL (putEOL g)

/-- A row in the format of the instance, with the input buffer after it. -/
def encodeRow (g : EncInst) (pbInputBuf : List UInt8) : Except Fault (EncInst × List UInt8) :=
  match g.wOutFmt with
  | .mh => do
    let (g, row) ← encodeRow1d g pbInputBuf g.iRowLen false
    .ok (putFillBits g, row)
  | .mr =>
    if g.iRowNum % g.w12Cycle = 0 then do
      let (g, row) ← encodeRow1d g pbInputBuf g.iRowLen true
      .ok (putFillBits g, row)
    else do
      let (g, row, prior) ← encodeRow2d g pbInputBuf (g.priorP.getD []) g.iRowLen true
      .ok (putFillBits { g with priorP := some prior }, row)
  | .mmr => do
    let (g, row, prior) ← encodeRow2d g pbInputBuf (g.priorP.getD []) g.iRowLen false
    .ok ({ g with priorP := some prior }, row)

/-- `memcpy (dst, src, n)`. -/
def copyRow (dst src : List UInt8) (n : Nat) : List UInt8 := src.take n ++ dst.drop n

def faxEncodeConvert (g : EncInst) (dwInputAvail : Nat) (pbInputBuf : List UInt8)
    (dwOutputAvail : Nat) : Except Fault (Called Encoded) :=
  let g := { g with pbOut := [] }
  if dwInputAvail = 0 then
    -- told to flush
    let g := putFlush (putEnding g)
    .ok (.returned ⟨true, 0, g.dwInNextPos, g.pbOut, g.dwOutNextPos, pbInputBuf, g⟩)
  else
    let inBytes := (g.iRowLen + 7) / 8
    if dwInputAvail < inBytes ∨ dwOutputAvail = 0 then .ok .fatalError
    else do
      let (g, row) ← encodeRow g pbInputBuf
      let inNextPos := g.dwInNextPos + UInt32.ofNat inBytes
      .ok (.returned ⟨false, inBytes, inNextPos, g.pbOut, g.dwOutNextPos, row,
        { g with
          priorP := g.priorP.map fun prior => copyRow prior row inBytes
          dwInNextPos := inNextPos
          dwOutNextPos := g.dwOutNextPos + UInt32.ofNat g.pbOut.length
          iRowNum := g.iRowNum + 1
          pbOut := [] }⟩)

end Hplip.Ip
