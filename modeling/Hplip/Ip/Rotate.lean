import Hplip.Ip.ChangeBpp
import Hplip.Ip.Ipmain
import Hplip.Lib.CInt
import Mathlib.Data.Nat.Sqrt

/-!
# Rotating a rectangle out of an image (`xrotate.c`)

The transform outputs a rectangle of the input image that may be turned, mirrored and scaled.
Input rows go into a strip, a buffer of rows that wraps around, with one row more above and below
than a row of the rectangle reaches over.

Positions are 16.16 numbers in an `int` that runs over as the machine's does; the depths are 1 bit
per pixel and whole bytes. Allocations succeed.
-/

namespace Hplip.Ip.Rotate

open CInt Checked

/-! ## The instance -/

/-- How a function ends early: an `INSURE` fails, an `int` overflows, the NULL input of a flush is
read, a row outside the strip is addressed, or the calls of a driver are used up. -/
inductive Stop
  | fatalError
  | overflow
  | nullInput
  | outsideStrip
  | outOfCalls
  deriving DecidableEq

/-- `ROTATE_INST`, less its check value. A row of `pStrip` has `stripBytesPerRow` bytes. -/
structure Inst where
  inTraits : IpImageTraits
  outTraits : IpImageTraits
  xUL : Int
  yUL : Int
  xUR : Int
  yUR : Int
  xLL : Int
  yLL : Int
  xLR : Int
  yLR : Int
  iOutWidth : Int
  iOutHeight : Int
  bRotateFast : Bool
  hSlopeDx : Int
  hSlopeDy : Int
  vSlopeDx : Int
  vSlopeDy : Int
  xLeft : Int
  yLeft : Int
  xRight : Int
  yRight : Int
  pStrip : Int → List UInt8
  stripIndexYTop : Int
  stripYTop : Int
  stripYBottom : Int
  stripRows : Int
  stripLoaded : Int
  stripSize : Int
  stripBytesPerRow : Int
  inBytesPerRow : Int
  outBytesPerRow : Int
  bytesPerPixel : Int
  dwRowsSent : UInt32
  dwInNextPos : UInt32
  dwOutNextPos : UInt32

/-- `aXformInfo`. -/
structure XformSpec where
  upperLeft : UInt32
  upperRight : UInt32
  lowerLeft : UInt32
  outputSize : UInt32
  fast : UInt32

/-- `i >> 16` -/
def highHalf (d : UInt32) : Int := ofDword d / 0x10000

/-- `i & 0xFFFF` -/
def lowHalf (d : UInt32) : Int := ofDword d % 0x10000

def openXform : Inst where
  inTraits := ⟨0, 0, 0, 0, 0, 0, 0, 0⟩
  outTraits := ⟨0, 0, 0, 0, 0, 0, 0, 0⟩
  xUL := 0
  yUL := 0
  xUR := 0
  yUR := 0
  xLL := 0
  yLL := 0
  xLR := 0
  yLR := 0
  iOutWidth := 0
  iOutHeight := 0
  bRotateFast := false
  hSlopeDx := 0
  hSlopeDy := 0
  vSlopeDx := 0
  vSlopeDy := 0
  xLeft := 0
  yLeft := 0
  xRight := 0
  yRight := 0
  pStrip := fun _ => []
  stripIndexYTop := 0
  stripYTop := 0
  stripYBottom := 0
  stripRows := 0
  stripLoaded := 0
  stripSize := 0
  stripBytesPerRow := 0
  inBytesPerRow := 0
  outBytesPerRow := 0
  bytesPerPixel := 0
  dwRowsSent := 0
  dwInNextPos := 0
  dwOutNextPos := 0

def setDefaultInputTraits (g : Inst) (traits : IpImageTraits) : Except Stop Inst := do
  require (0 < traits.iPixelsPerRow ∧ 0 < traits.lNumRows ∧ 0 < traits.iBitsPerPixel) .fatalError
  return { g with inTraits := traits }

def setXformSpec (g : Inst) (spec : XformSpec) : Except Stop Inst := do
  let g := { g with
    xUL := highHalf spec.upperLeft
    yUL := lowHalf spec.upperLeft
    xUR := highHalf spec.upperRight
    yUR := lowHalf spec.upperRight
    xLL := highHalf spec.lowerLeft
    yLL := lowHalf spec.lowerLeft
    iOutWidth := highHalf spec.outputSize
    iOutHeight := lowHalf spec.outputSize
    bRotateFast := decide (spec.fast = 1) }
  require (0 ≤ g.iOutWidth ∧ 0 ≤ g.iOutHeight) .fatalError
  return { g with
    xLR := g.xUR + (g.xLL - g.xUL)
    yLR := g.yUR + (g.yLL - g.yUL) }

/-- `(int)(sqrt(n) + 0.5)`: no root of a whole number is near a half. -/
def roundedRoot (n : Int) : Int := ((4 * n.toNat).sqrt + 1) / 2

/-- `dx*dx + dy*dy` -/
def lengthSq (dx dy : Int) : Except Stop Int := do
  let x ← int .overflow (dx * dx)
  let y ← int .overflow (dy * dy)
  int .overflow (x + y)

/-- A length of the output image: 0 stands for the length in the input image. -/
def outLength (i sq : Int) : Int := if i = 0 then roundedRoot sq else i

/-- `(n*bpp + 7) / 8` -/
def rowBytes (n bpp : Int) : Except Stop Int := do
  let bits ← int .overflow (n * bpp)
  let rounded ← int .overflow (bits + 7)
  return rounded.tdiv 8

/-- `n << 16` -/
def fixed (n : Int) : Except Stop Int := int .overflow (n * 0x10000)

/-- `g->stripRows`: the rows that an output row reaches over, and one more above and below. -/
def stripRowsFor (g : Inst) : Int :=
  (if g.vSlopeDy < 0 then max g.yUL g.yUR - min g.yLL g.yLR + 1
    else max g.yUL g.yUR - min g.yUL g.yUR + 1) + 2

def setRectangle (g : Inst) : Except Stop Inst := do
  let dxH := g.xUR - g.xUL
  let dyH := g.yUR - g.yUL
  let dxV := g.xLL - g.xUL
  let dyV := g.yLL - g.yUL
  let rotWidthSq ← lengthSq dxH dyH
  let rotHeightSq ← lengthSq dxV dyV
  require (0 < rotWidthSq ∧ 0 < rotHeightSq) .fatalError
  let iOutWidth := outLength g.iOutWidth rotWidthSq
  let iOutHeight := outLength g.iOutHeight rotHeightSq
  let hx ← fixed dxH
  let hy ← fixed dyH
  let vx ← fixed dxV
  let vy ← fixed dyV
  let xLeft ← fixed g.xUL
  let yLeft ← fixed g.yUL
  let xRight ← fixed g.xUR
  let yRight ← fixed g.yUR
  return { g with
    outTraits := { g.inTraits with iPixelsPerRow := iOutWidth, lNumRows := iOutHeight }
    iOutWidth := iOutWidth
    iOutHeight := iOutHeight
    hSlopeDx := hx.tdiv iOutWidth
    hSlopeDy := hy.tdiv iOutWidth
    vSlopeDx := vx.tdiv iOutHeight
    vSlopeDy := vy.tdiv iOutHeight
    xLeft := xLeft
    yLeft := yLeft
    xRight := xRight
    yRight := yRight }

def setStrip (g : Inst) : Except Stop Inst := do
  let quotient := g.inTraits.iBitsPerPixel.tdiv 8
  let bytesPerPixel := if quotient = 0 then 1 else quotient
  let inBytesPerRow ← rowBytes g.inTraits.iPixelsPerRow g.inTraits.iBitsPerPixel
  let outBytesPerRow ← rowBytes g.iOutWidth g.inTraits.iBitsPerPixel
  let stripBytesPerRow ← int .overflow (g.inTraits.iPixelsPerRow * bytesPerPixel)
  let stripSize ← int .overflow (stripRowsFor g * stripBytesPerRow)
  return { g with
    bytesPerPixel := bytesPerPixel
    inBytesPerRow := inBytesPerRow
    outBytesPerRow := outBytesPerRow
    stripBytesPerRow := stripBytesPerRow
    stripIndexYTop := 0
    stripYTop := 0
    stripYBottom := -1
    stripLoaded := 0
    stripRows := stripRowsFor g
    stripSize := stripSize }

/-- `getActualTraits`, which reads no input; the traits that it answers are those of the
instance. -/
def getActualTraits (g : Inst) : Except Stop Inst := do
  let g ← setRectangle g
  setStrip g

/-- `*pdwMinInBufLen` and `*pdwMinOutBufLen`. -/
def getActualBufSizes (g : Inst) : Int × Int := (g.inBytesPerRow, g.outBytesPerRow)

/-! ## Loading -/

/-- Is the Y of an end of the current row below the bottom of the strip? -/
def needMore (g : Inst) : Prop :=
  g.stripYBottom ≤ g.yLeft / 0x10000 ∨ g.stripYBottom ≤ g.yRight / 0x10000

instance (g : Inst) : Decidable (needMore g) := inferInstanceAs (Decidable (_ ∨ _))

def expandBilevelRow : Nat → UInt8 → UInt8 → List UInt8 → List UInt8
  | 0, _, _, _ => []
  | nPixels + 1, mask, inbyte, pSrc =>
    let (mask, inbyte, pSrc) :=
      if mask = 0 then (0x80, pSrc.headD 0, pSrc.tail) else (mask, inbyte, pSrc)
    (if inbyte &&& mask ≠ 0 then 0 else 255) :: expandBilevelRow nPixels (mask >>> 1) inbyte pSrc

def stripRow (g : Inst) (buf : List UInt8) : List UInt8 :=
  if g.inTraits.iBitsPerPixel = 1 then expandBilevelRow g.inTraits.iPixelsPerRow.toNat 0 0 buf
  else buf.take g.stripBytesPerRow.toNat

def rowAt (g : Inst) (row : Int) : Except Stop Int := do
  require (0 ≤ row ∧ row < g.stripRows) .outsideStrip
  return row

/-- `memcpy` to a row of the strip. -/
def putRow (g : Inst) (row : Int) (bytes : List UInt8) : Inst :=
  { g with pStrip := Function.update g.pStrip row bytes }

/-- `dwInputAvail`: for a call that flushes it is set to a row. -/
def inputAvail (g : Inst) : Option (List UInt8) → Int
  | none => g.inBytesPerRow
  | some buf => buf.length

/-- The next row of the initial load. A flush repeats the row before, but expands its NULL input
where the image is bilevel. -/
def initialRow (g : Inst) : Option (List UInt8) → Except Stop (List UInt8)
  | some buf => return stripRow g buf
  | none => do
    require (g.inTraits.iBitsPerPixel ≠ 1) .nullInput
    let row ← rowAt g (g.stripLoaded - 1)
    return g.pStrip row

def countLoaded (g : Inst) : Inst :=
  { g with
    stripLoaded := g.stripLoaded + 1
    stripYBottom := g.stripYBottom + 1 }

def useInput (g : Inst) (inputBuf : Option (List UInt8)) : Inst :=
  { g with
    dwInNextPos :=
      if inputBuf.isSome then g.dwInNextPos + toDword g.inBytesPerRow else g.dwInNextPos }

def replicateFirst (g : Inst) : Except Stop Inst :=
  if g.stripLoaded = 1 then do
    let second ← rowAt g 1
    return countLoaded (putRow g second (g.pStrip 0))
  else return g

def loadInitial (g : Inst) (inputBuf : Option (List UInt8)) : Except Stop Inst := do
  let dest ← rowAt g g.stripLoaded
  let bytes ← initialRow g inputBuf
  let g ← replicateFirst (countLoaded (putRow g dest bytes))
  return useInput g inputBuf

def nextRow (g : Inst) : Option (List UInt8) → List UInt8
  | some buf => stripRow g buf
  | none => List.replicate g.stripBytesPerRow.toNat 255

def scrolled (g : Inst) : Inst :=
  { g with
    stripIndexYTop := (g.stripIndexYTop + 1) % g.stripRows
    stripYTop := g.stripYTop + 1
    stripYBottom := g.stripYBottom + 1 }

def loadNext (g : Inst) (inputBuf : Option (List UInt8)) : Except Stop Inst := do
  let dest ← rowAt g g.stripIndexYTop
  return useInput (scrolled (putRow g dest (nextRow g inputBuf))) inputBuf

/-! ## Output -/

def byteAt (g : Inst) (p : Int) : Nat :=
  ((g.pStrip (p / g.stripBytesPerRow)).getD (p % g.stripBytesPerRow).toNat 0).toNat

def wordAt (g : Inst) (p : Int) : Nat := byteAt g p + 256 * byteAt g (p + 1)

def interpolateByte (g : Inst) (pSrc pNextRow : Int) (xfrac yfrac : Nat) : UInt8 :=
  let xtop := byteAt g pSrc * (256 - xfrac) + byteAt g (pSrc + g.bytesPerPixel) * xfrac
  let xbot := byteAt g pNextRow * (256 - xfrac) + byteAt g (pNextRow + g.bytesPerPixel) * xfrac
  UInt8.ofNat ((xtop * (256 - yfrac) + xbot * yfrac + 0x8000) >>> 16)

/-- `INTERPOLATE_WORD`, with the next pixel `bpp` words on. -/
def interpolateWord (g : Inst) (pSrc pNextRow : Int) (bpp : Int) (xfrac yfrac : Nat) : List UInt8 :=
  let mix (a b frac : Nat) : Nat := (((a * (0x10000 - frac)) >>> 8) + ((b * frac) >>> 8) + 128) >>> 8
  let xtop := mix (wordAt g pSrc) (wordAt g (pSrc + 2 * bpp)) xfrac
  let xbot := mix (wordAt g pNextRow) (wordAt g (pNextRow + 2 * bpp)) xfrac
  ChangeBpp.word (mix xtop xbot yfrac)

/-- The bytes of the pixel at `pSrc`. -/
def pixelBytes (g : Inst) (pSrc pNextRow xcur ycur : Int) : Except Stop (List UInt8) :=
  let fast := (List.range g.bytesPerPixel.toNat).map fun (k : Nat) =>
    UInt8.ofNat (byteAt g (pSrc + k))
  let xfrac := (xcur / 256 % 256).toNat
  let yfrac := (ycur / 256 % 256).toNat
  if g.bytesPerPixel = 3 ∨ g.bytesPerPixel = 1 then
    return if g.bRotateFast then fast
      else (List.range g.bytesPerPixel.toNat).map fun (k : Nat) =>
        interpolateByte g (pSrc + k) (pNextRow + k) xfrac yfrac
  else if g.bytesPerPixel = 2 ∨ g.bytesPerPixel = 6 then
    let xfrac := (xcur % 0x10000).toNat
    let yfrac := (ycur % 0x10000).toNat
    let first := interpolateWord g pSrc pNextRow g.inTraits.iComponentsPerPixel xfrac yfrac
    let more := if g.bytesPerPixel = 6 then
        interpolateWord g (pSrc + 2) (pNextRow + 2) 3 xfrac yfrac
          ++ interpolateWord g (pSrc + 4) (pNextRow + 4) 3 xfrac yfrac
      else []
    return if g.bRotateFast then fast else first ++ more
  else .error .fatalError

def outputPixel (g : Inst) (xcur ycur : Int) : Except Stop (List UInt8) :=
  let xint := xcur / 0x10000
  let yint := ycur / 0x10000 - g.stripYTop
  if (0 ≤ yint ∧ yint < g.stripRows - 1) ∧ 0 ≤ xint ∧ xint < g.inTraits.iPixelsPerRow then do
    let sum := yint + g.stripIndexYTop
    let rowIndex ← rowAt g (if g.stripRows ≤ sum then sum - g.stripRows else sum)
    let pSrc := (rowIndex * g.inTraits.iPixelsPerRow + xint) * g.bytesPerPixel
    let after := pSrc + g.stripBytesPerRow
    let pNextRow := if g.stripSize ≤ after then after - g.stripSize else after
    let _nextIndex ← rowAt g (pNextRow / g.stripBytesPerRow)
    pixelBytes g pSrc pNextRow xcur ycur
  else return List.replicate g.bytesPerPixel.toNat 255

/-- `iPixelsPerRow` pixels from a position on. -/
def outputPixels (g : Inst) : Nat → Int → Int → Except Stop (List (List UInt8))
  | 0, _, _ => return []
  | n + 1, xcur, ycur => do
    let pixel ← outputPixel g xcur ycur
    let pixels ← outputPixels g n (wrapAdd xcur g.hSlopeDx) (wrapAdd ycur g.hSlopeDy)
    return pixel :: pixels

/-- The bytes of a row. Bilevel pixels are packed as `OUTPUT_THRESHOLDED_BIT` packs them; a white
one only shifts the mask. -/
def packRow (g : Inst) (pixels : List (List UInt8)) : List UInt8 :=
  if g.inTraits.iBitsPerPixel = 1 then ChangeBpp.thresholded (pixels.flatten.map UInt8.toNat)
  else pixels.flatten

def sentRow (g : Inst) : Inst :=
  { g with
    dwOutNextPos := g.dwOutNextPos + toDword g.outBytesPerRow
    dwRowsSent := g.dwRowsSent + 1
    xLeft := wrapAdd g.xLeft g.vSlopeDx
    yLeft := wrapAdd g.yLeft g.vSlopeDy
    xRight := wrapAdd g.xRight g.vSlopeDx
    yRight := wrapAdd g.yRight g.vSlopeDy }

def outputRow (g : Inst) (dwOutputAvail : Int) : Except Stop (List UInt8 × Inst) := do
  require (g.outBytesPerRow ≤ dwOutputAvail) .fatalError
  let pixels ← outputPixels g g.outTraits.iPixelsPerRow.toNat g.xLeft g.yLeft
  return (packRow g pixels, sentRow g)

/-! ## The calls -/

/-- What `convert` answers. -/
structure Converted where
  result : UInt16
  inUsed : Int
  inNextPos : UInt32
  outThisPos : UInt32
  outBuf : Option (List UInt8)

def allSent (g : Inst) : Prop := g.outTraits.lNumRows ≤ g.dwRowsSent.toNat

instance (g : Inst) : Decidable (allSent g) := inferInstanceAs (Decidable (_ ≤ _))

/-- The end of a call: a row is output if one can be, and further input is discarded once all rows
are output. -/
def finish (g : Inst) (dwOutputAvail : Int) : Except Stop (Option (List UInt8) × Inst) :=
  if allSent g then
    -- Forces the loading to go on.
    return (none, { g with stripYBottom := -100000 })
  else if ¬ needMore g then do
    let (row, g) ← outputRow g dwOutputAvail
    return (some row, g)
  else return (none, g)

def flag (p : Prop) [Decidable p] (bits : UInt16) : UInt16 := if p then bits else 0

/-- `rotate_convert`; without an input buffer it is told to flush. -/
def convert (g : Inst) (inputBuf : Option (List UInt8)) (dwOutputAvail : Int) :
    Except Stop (Converted × Inst) :=
  if inputBuf = none ∧ allSent g then return (⟨ipDone, 0, g.dwInNextPos, g.dwOutNextPos, none⟩, g)
  else if (g.stripLoaded < g.stripRows ∨ needMore g) ∧ inputAvail g inputBuf = 0 then
    return (⟨ipReadyForData, 0, g.dwInNextPos, g.dwOutNextPos, none⟩, g)
  else if g.stripLoaded < g.stripRows then do
    require (g.inBytesPerRow ≤ inputAvail g inputBuf) .fatalError
    let g' ← loadInitial g inputBuf
    if inputBuf = none then return (⟨0, 0, g.dwInNextPos, g.dwOutNextPos, none⟩, g')
    else return (⟨flag (g'.stripLoaded < g'.stripRows ∨ needMore g') ipReadyForData
      ||| ipConsumedRow, g.inBytesPerRow, g'.dwInNextPos, g.dwOutNextPos, none⟩, g')
  else do
    let loads : Bool := decide (needMore g)
    let g₁ ← if loads then do
      require (g.inBytesPerRow ≤ inputAvail g inputBuf) .fatalError
      loadNext g inputBuf
    else pure g
    let (outBuf, g₂) ← finish g₁ dwOutputAvail
    let inUsed := if loads ∧ inputBuf.isSome then g.inBytesPerRow else 0
    return (⟨flag (inUsed ≠ 0) ipConsumedRow ||| flag (outBuf.isSome ∧ g.outBytesPerRow ≠ 0)
      ipProducedRow ||| flag (needMore g₂) ipReadyForData, inUsed, g₁.dwInNextPos, g.dwOutNextPos,
      outBuf⟩, g₂)

/-! ## A whole image -/

def start (traits : IpImageTraits) (spec : XformSpec) : Except Stop Inst := do
  let g ← setDefaultInputTraits openXform traits
  let g ← setXformSpec g spec
  getActualTraits g

/-- Calls with a row until it is consumed, the output buffer as large as `getActualBufSizes`
asks. -/
def feedRow (buf : List UInt8) : Nat → Inst → Except Stop (List Converted × Inst)
  | 0, _ => .error .outOfCalls
  | calls + 1, g => do
    let (c, g) ← convert g (some buf) (getActualBufSizes g).2
    if Has c.result ipConsumedRow then return ([c], g)
    else do
      let (cs, g) ← feedRow buf calls g
      return (c :: cs, g)

def feed (calls : Nat) : List (List UInt8) → Inst → Except Stop (List Converted × Inst)
  | [], g => return ([], g)
  | buf :: bufs, g => do
    let (cs, g) ← feedRow buf calls g
    let (cs', g) ← feed calls bufs g
    return (cs ++ cs', g)

def flush : Nat → Inst → Except Stop (List Converted)
  | 0, _ => .error .outOfCalls
  | calls + 1, g => do
    let (c, g) ← convert g none (getActualBufSizes g).2
    if Has c.result ipDone then return [c]
    else do
      let cs ← flush calls g
      return c :: cs

/-- The calls on an image: at most `calls` for each row, and at most `calls` to flush. -/
def rotateImage (calls : Nat) (g : Inst) (bufs : List (List UInt8)) :
    Except Stop (List Converted) := do
  let (cs, g) ← feed calls bufs g
  let cs' ← flush calls g
  return cs ++ cs'

end Hplip.Ip.Rotate
