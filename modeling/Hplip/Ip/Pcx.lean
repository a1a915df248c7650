import Hplip.Lib.Checked
import Hplip.Lib.LittleEndian

/-!
# Rows of a PCX file (xpcx.c)

A row is coded as runs of equal bytes. A bilevel row is inverted for that, and turned back; of a
row of 16 levels the four bits of the pixels are separated into planes. Both work on words of
type `ULONG`. An access outside a buffer is a fault.

The machine is little-endian, and a `ULONG` is an `unsigned long` of 64 bits.
-/

namespace Hplip.Ip.Pcx

open Checked LittleEndian

inductive Fault
  | outside
  deriving DecidableEq, Repr

/-- The part of `PCX_INST` that the rows need. -/
structure PcxInst where
  iBitsPerPixel : Nat
  uBytesPerRawRow : Nat
  uBytesPerPlane : Nat
  deriving DecidableEq, Repr

/-- `pcxEncode_getActualTraits`, for rows of so many pixels. The decoder has the same numbers. -/
def getActualTraits (iBitsPerPixel iPixelsPerRow : Nat) : PcxInst where
  iBitsPerPixel
  uBytesPerRawRow := if iBitsPerPixel = 1 then (iPixelsPerRow + 7) / 8 else iPixelsPerRow
  uBytesPerPlane := (iPixelsPerRow + 7) / 8

def PcxInst.planeBytes (g : PcxInst) : Nat := g.uBytesPerPlane * g.iBitsPerPixel

/-- The coded row that `getActualBufSizes` asks to have room for. -/
def PcxInst.codedBytes (g : PcxInst) : Nat := g.iBitsPerPixel * g.uBytesPerPlane * 2

/-- The buffer-overrun allowance of `IP_MEM_ALLOC`. -/
abbrev spareBytes : Nat := 12

/-! ## Runs -/

/-- The loop of `encode_buffer`, for at most so many rounds. -/
def encodeRuns : Nat → List UInt8 → List UInt8
  | 0, _ => []
  | _ + 1, [] => []
  | rounds + 1, byt :: rest =>
    let run := (rest.takeWhile (· == byt)).length + 1
    let runLen := if 63 < run then 63 else run
    (if 1 < runLen ∨ 0xc0 ≤ byt then [UInt8.ofNat runLen ||| 0xc0] else []) ++
      byt :: encodeRuns rounds (rest.drop (runLen - 1))

/-- `encode_buffer`, into a buffer of so many bytes. -/
def encodeBuffer (g : PcxInst) (inbuf : List UInt8) (room : Nat) : Except Fault (List UInt8) := do
  require (g.planeBytes ≤ inbuf.length) .outside
  let codes := encodeRuns g.planeBytes (inbuf.take g.planeBytes)
  require (codes.length ≤ room) .outside
  return codes

/-- The loop of `decode_buffer` with so many bytes left to write: the bytes that it writes, and
how many it reads. -/
def decodeRuns : List UInt8 → Nat → Except Fault (List UInt8 × Nat)
  | _, 0 => .ok ([], 0)
  | [], _ + 1 => .error .outside
  | [byt], left + 1 => do
    require (byt < 0xc0) .outside
    let (out, used) ← decodeRuns [] left
    return (byt :: out, used + 1)
  | byt :: val :: rest, left + 1 =>
    if byt < 0xc0 then do
      let (out, used) ← decodeRuns (val :: rest) left
      return (byt :: out, used + 1)
    else do
      let run := (byt &&& 0x3f).toNat
      let runLen := if left + 1 < run then left + 1 else run
      let (out, used) ← decodeRuns rest (left + 1 - runLen)
      return (List.replicate runLen val ++ out, used + 2)

/-- `decode_buffer`: how many bytes it reads, and the output buffer. -/
def decodeBuffer (g : PcxInst) (inbuf outbuf : List UInt8) : Except Fault (Nat × List UInt8) := do
  let (out, used) ← decodeRuns inbuf g.planeBytes
  require (out.length ≤ outbuf.length) .outside
  return (used, out ++ outbuf.drop out.length)

/-! ## Bilevel -/

/-- The bytes of a `ULONG`. -/
abbrev ulongBytes : Nat := 8

/-- `flip_pixels`: as many `ULONG`s are inverted as the row has quads of bytes. -/
def flipPixels (g : PcxInst) (buf : List UInt8) : Except Fault (List UInt8) := do
  let flipped := ulongBytes * ((g.uBytesPerRawRow + 3) / 4)
  require (flipped ≤ buf.length) .outside
  return (buf.take flipped).map (~~~ ·) ++ buf.drop flipped

/-- `encode_1`: the coded row, and the input buffer. -/
def encode1 (g : PcxInst) (inbuf : List UInt8) (room : Nat) :
    Except Fault (List UInt8 × List UInt8) := do
  let inbuf ← flipPixels g inbuf
  let codes ← encodeBuffer g inbuf room
  let inbuf ← flipPixels g inbuf
  return (codes, inbuf)

def decode1 (g : PcxInst) (inbuf outbuf : List UInt8) : Except Fault (Nat × List UInt8) := do
  let (used, outbuf) ← decodeBuffer g inbuf outbuf
  let outbuf ← flipPixels g outbuf
  return (used, outbuf)

/-! ## 16 levels -/

abbrev nib0 : Nat := 0x000000f0
abbrev nib1 : Nat := 0x0000f000
abbrev nib2 : Nat := 0x00f00000
abbrev nib3 : Nat := 0xf0000000

/-- Read a `ULONG`. -/
def readQuad (buf : List UInt8) (i : Nat) : Except Fault Nat := do
  require (i + ulongBytes ≤ buf.length) .outside
  return littleEndian buf i ulongBytes

/-- Write a `ULONG`. -/
def writeQuad (buf : List UInt8) (i v : Nat) : Except Fault (List UInt8) := do
  require (i + ulongBytes ≤ buf.length) .outside
  return buf.take i ++ (bytes ulongBytes v ++ buf.drop (i + ulongBytes))

def planeByte (mask first second : Nat) : UInt8 :=
  let bit (quad nib : Nat) (b : UInt8) : UInt8 := if (quad &&& mask) &&& nib ≠ 0 then b else 0
  bit first nib0 0x80 ||| bit first nib1 0x40 ||| bit first nib2 0x20 ||| bit first nib3 0x10 |||
    bit second nib0 0x08 ||| bit second nib1 0x04 ||| bit second nib2 0x02 |||
      bit second nib3 0x01

/-- The inner loop of `encode_4` from a position on, for at most so many rounds. -/
def separatePlane (inbuf : List UInt8) (mask rawBytes : Nat) :
    Nat → Nat → Except Fault (List UInt8)
  | 0, _ => .ok []
  | rounds + 1, inPos =>
    if inPos < rawBytes then do
      let first ← readQuad inbuf inPos
      let second ← readQuad inbuf (inPos + ulongBytes)
      let rest ← separatePlane inbuf mask rawBytes rounds (inPos + 2 * ulongBytes)
      return planeByte mask first second :: rest
    else .ok []

/-- The outer loop of `encode_4`: the bytes that it writes for the masks. -/
def separatePlanes (inbuf : List UInt8) (rawBytes : Nat) : List Nat → Except Fault (List UInt8)
  | [] => .ok []
  | mask :: masks => do
    let plane ← separatePlane inbuf mask rawBytes rawBytes 0
    let rest ← separatePlanes inbuf rawBytes masks
    return plane ++ rest

def masks : List Nat := [0x10101010, 0x20202020, 0x40404040, 0x80808080]

/-- `encode_4`, with what is in `pPlanes`: the coded row, and `pPlanes` after it. -/
def encode4 (g : PcxInst) (inbuf pPlanes : List UInt8) (room : Nat) :
    Except Fault (List UInt8 × List UInt8) := do
  let written ← separatePlanes inbuf g.uBytesPerRawRow masks
  require (written.length ≤ pPlanes.length) .outside
  let pPlanes := written ++ pPlanes.drop written.length
  let codes ← encodeBuffer g pPlanes room
  return (codes, pPlanes)

/-- The table `unscramble`. -/
def unscramble : List Nat :=
  [0x00000000, 0x10000000, 0x00100000, 0x10100000,
   0x00001000, 0x10001000, 0x00101000, 0x10101000,
   0x00000010, 0x10000010, 0x00100010, 0x10100010,
   0x00001010, 0x10001010, 0x00101010, 0x10101010]

def unscrambled (nibble : UInt8) : Nat := unscramble.getD nibble.toNat 0

/-- `*out_p++ |= v`, or `*out_p++ = v` for the first plane. -/
def mergeQuad (first : Bool) (outbuf : List UInt8) (i v : Nat) : Except Fault (List UInt8) := do
  let old ← readQuad outbuf i
  writeQuad outbuf i (if first then v else old ||| v)

/-- The loop over a plane in `decode_4`, the bits of its pixels shifted to their place. -/
def combinePlane (first : Bool) (shift : Nat) :
    List UInt8 → List UInt8 → Nat → Except Fault (List UInt8)
  | [], outbuf, _ => .ok outbuf
  | byt :: plane, outbuf, outPos => do
    let outbuf ← mergeQuad first outbuf outPos (unscrambled (byt >>> 4) <<< shift)
    let outbuf ← mergeQuad first outbuf (outPos + ulongBytes) (unscrambled (byt &&& 15) <<< shift)
    combinePlane first shift plane outbuf (outPos + 2 * ulongBytes)

/-- `decode_4`, with what is in `pPlanes`: how many bytes it reads, and the output buffer. -/
def decode4 (g : PcxInst) (inbuf pPlanes outbuf : List UInt8) : Except Fault (Nat × List UInt8) := do
  let (used, pPlanes) ← decodeBuffer g inbuf pPlanes
  let plane (k : Nat) : List UInt8 := (pPlanes.drop (k * g.uBytesPerPlane)).take g.uBytesPerPlane
  let outbuf ← combinePlane true 0 (plane 0) outbuf 0
  let outbuf ← combinePlane false 1 (plane 1) outbuf 0
  let outbuf ← combinePlane false 2 (plane 2) outbuf 0
  let outbuf ← combinePlane false 3 (plane 3) outbuf 0
  return (used, outbuf)

end Hplip.Ip.Pcx
