import Mathlib
import Hplip.Hpcups.Compressor
import Hplip.Lib.Loop

/-!
# The halftoner (Halftoner.cpp, Halftoner.h)

A raster of 8-bit ink planes becomes rasters of bits by serpentine error
diffusion: half of what a pixel is off by goes to the next pixel of the row
(`tmpShortStore`), half to the pixel below (`ErrBuff`). Thresholds are random
and drawn from one generator that all planes share. Groups of eight pixels that
open a window of sixteen white ones are skipped.

A row's diffusion logs what it stores and which cells of the error buffer it
reaches. A call that would go through a null `tempBuffer`, or past its end, is
stuck in the state it has reached.
-/

namespace Hplip.Hpcups.Halftoner

open Loop

/-! ## Configuration -/

/-- The ink planes that the code names; M and light C lie between C, Y and `Mlight`. -/
abbrev K : Nat := 0

abbrev C : Nat := 1

abbrev Y : Nat := 3

abbrev Mlight : Nat := 5

def maxColorPlanes : Nat := 6

/-- The arguments of `Halftoner::Halftoner`; the callers replace a boost of 0 by 1. -/
structure Config where
  dyeCount : Nat
  inputWidth : Nat
  iNumRows : Nat → Nat
  resBoost : Nat
  modeColorDepth : Nat → Nat
  blackFEDTable : Mem
  colorFEDTable : Mem
  resBoost_pos : 0 < resBoost

namespace Config

variable (cfg : Config)

def startPlane : Nat := if cfg.dyeCount = 3 then C else K

def endPlane : Nat :=
  if cfg.dyeCount = 1 then K else if cfg.dyeCount = 6 then Mlight else Y

def Active (i : Nat) : Prop := cfg.startPlane ≤ i ∧ i < cfg.dyeCount + cfg.startPlane

instance (i : Nat) : Decidable (cfg.Active i) := by
  unfold Active
  infer_instance

/-- `NumRows`, an array of bytes. -/
def numRows (i : Nat) : Nat := if cfg.Active i then cfg.iNumRows i % 256 else 0

/-- `ColorDepth`, an array of bytes. -/
def colorDepth (i : Nat) : Nat := if cfg.Active i then cfg.modeColorDepth i % 256 else 0

/-- `AdjustedInputWidth`: the input width padded to be divisible by 8. -/
def adjustedInputWidth : Nat :=
  if cfg.inputWidth % 8 ≠ 0 then cfg.inputWidth + (8 - cfg.inputWidth % 8) else cfg.inputWidth

def outputWidth (i : Nat) : Nat :=
  if cfg.Active i then cfg.adjustedInputWidth * cfg.numRows i * cfg.resBoost else 0

/-- `factor`: how often a pixel of the plane stands in a row. -/
def factor (i : Nat) : Nat := cfg.numRows i * cfg.resBoost

def offset (i : Nat) : Nat := (i - cfg.startPlane) * cfg.inputWidth

def oddbits : Nat := cfg.adjustedInputWidth - cfg.inputWidth

/-- The planes of `for (i = StartPlane; i <= EndPlane; i++)`. -/
def planes : List Nat := List.range' cfg.startPlane (cfg.endPlane + 1 - cfg.startPlane)

/-- `fFEDResPtr`: the table of a plane. -/
def fedResTbl (i : Nat) : Mem := if i = K then cfg.blackFEDTable else cfg.colorFEDTable

def planeCount : Nat :=
  ((List.range maxColorPlanes).map fun i => cfg.numRows i * cfg.colorDepth i).sum

end Config

/-! ## Random thresholds -/

/-- The next `hold_random`. -/
def nextRandom (holdRandom : UInt32) : UInt32 := holdRandom * 214013 + 2531011

/-- `RandomNumber`, of the `hold_random` it leaves. -/
def randomNumber (holdRandom : UInt32) : UInt8 := ((holdRandom >>> 16) &&& 0xFF).toUInt8

/-- `HPRand`, of the `hold_random` it leaves. -/
def hpRand (holdRandom : UInt32) : UInt8 := randomNumber holdRandom % 74 + 5

/-! ## Error diffusion -/

/-- The conversion to `short`. -/
def short (x : Int) : Int := Int.bmod x 65536

/-- `x >> 1`. -/
def half (x : Int) : Int := Int.shiftRight x 1

/-- What a row's diffusion does to `tone`, `tmpShortStore` and through
`diffusionErrorPtr`: values before their conversion to `short`, places as offsets
from the start of the plane's buffer. -/
inductive Event
  | tone (v : Int)
  | diffused (v : Int)
  | tmpShortStore (v : Int)
  | read (place : Int)
  | write (place v : Int)
  deriving DecidableEq, Repr

structure Cursor where
  inputPtr : Int
  diffusionErrorPtr : Int
  outputPtr1 : Int
  outputPtr2 : Int
  pixelCount : Int

/-- The members that `HTEDiffOpen` works on, the buffers its pointers reach, and
the log. -/
structure Diffuser extends Cursor where
  tone : Int
  tmpShortStore : Int
  level : UInt8
  rasterByte1 : UInt8
  rasterByte2 : UInt8
  rasterByte3 : UInt8
  holdRandom : UInt32
  err : Nat → Int
  output1 : Mem
  output2 : Mem
  log : List Event

namespace Diffuser

def setTone (v : Int) (d : Diffuser) : Diffuser :=
  { d with tone := short v, log := .tone v :: d.log }

def setTmpShortStore (v : Int) (d : Diffuser) : Diffuser :=
  { d with tmpShortStore := short v, log := .tmpShortStore v :: d.log }

/-- `*diffusionErrorPtr = v`. -/
def writeError (v : Int) (d : Diffuser) : Diffuser :=
  { d with
    err := Function.update d.err d.diffusionErrorPtr.toNat (short v)
    log := .write d.diffusionErrorPtr v :: d.log }

/-- `tmpShortStore = *diffusionErrorPtr + v`. -/
def carryError (v : Int) (d : Diffuser) : Diffuser :=
  setTmpShortStore (d.err d.diffusionErrorPtr.toNat + v)
    { d with log := .read d.diffusionErrorPtr :: d.log }

/-- `switch (level)`. -/
def setBits (bitMask : UInt8) (d : Diffuser) : Diffuser :=
  match d.level.toNat with
  | 1 => { d with rasterByte1 := d.rasterByte1 ||| bitMask }
  | 2 => { d with rasterByte2 := d.rasterByte2 ||| bitMask }
  | 3 => { d with
      rasterByte2 := d.rasterByte2 ||| bitMask
      rasterByte1 := d.rasterByte1 ||| bitMask }
  | 4 => { d with rasterByte3 := d.rasterByte3 ||| bitMask }
  | 5 => { d with
      rasterByte3 := d.rasterByte3 ||| bitMask
      rasterByte1 := d.rasterByte1 ||| bitMask }
  | 6 => { d with
      rasterByte3 := d.rasterByte3 ||| bitMask
      rasterByte2 := d.rasterByte2 ||| bitMask }
  | 7 => { d with
      rasterByte3 := d.rasterByte3 ||| bitMask
      rasterByte2 := d.rasterByte2 ||| bitMask
      rasterByte1 := d.rasterByte1 ||| bitMask }
  | _ => d

/-- The pixel at hand becomes `tone`, its entry of the table gives the level, and
the pointer moves on. -/
def load (dir : Int) (table input : Mem) (d : Diffuser) : Diffuser :=
  let pixel := (input d.inputPtr.toNat).toNat
  setTone pixel { d with inputPtr := d.inputPtr + dir, level := table (4 * pixel) }

/-- The level of a pixel with the entry `part` of its table, and what it leaves. -/
def quantize (part : UInt8) (thresholdValue : Int) (bitMask : UInt8) (d : Diffuser) :
    Diffuser :=
  if d.tone ≠ 0 then
    let d := setTone (d.tmpShortStore + part.toNat) d
    let d := if d.tone ≥ thresholdValue then
        setTone (d.tone - 255) { d with level := d.level + 1 }
      else d
    setBits bitMask d
  else setTone d.tmpShortStore d

def diffuse (dir : Int) (d : Diffuser) : Diffuser :=
  let d := writeError (half d.tone) { d with log := .diffused d.tone :: d.log }
  let d := { d with diffusionErrorPtr := d.diffusionErrorPtr + dir }
  carryError (d.tone - half d.tone) d

/-- The common text of `FORWARD_FED` and `BACKWARD_FED`; `dir` is what `++` or `--`
adds to a pointer. -/
def fed (dir : Int) (table input : Mem) (thresholdValue : Int) (bitMask : UInt8)
    (d : Diffuser) : Diffuser :=
  let part := table (4 * (input d.inputPtr.toNat).toNat + 1)
  diffuse dir (quantize part thresholdValue bitMask (load dir table input d))

def forwardFed : Mem → Mem → Int → UInt8 → Diffuser → Diffuser := fed 1

def backwardFed : Mem → Mem → Int → UInt8 → Diffuser → Diffuser := fed (-1)

/-- `thValue = HPRand (); FORWARD_FED (thValue, mask)` for one mask after another. -/
def pixels (fed : Int → UInt8 → Diffuser → Diffuser) (masks : List UInt8) (d : Diffuser) :
    Diffuser :=
  masks.foldl (fun d mask =>
    let r := nextRandom d.holdRandom
    fed (hpRand r).toNat mask { d with holdRandom := r }) d

/-- `*outputPtr1++ = rasterByte1`, and `outputPtr2` with it. -/
def emit (dir : Int) (hifipe : Bool) (d : Diffuser) : Diffuser :=
  let d := { d with
    output1 := Function.update d.output1 d.outputPtr1.toNat d.rasterByte1
    outputPtr1 := d.outputPtr1 + dir
    rasterByte1 := 0 }
  if hifipe then { d with
    output2 := Function.update d.output2 d.outputPtr2.toNat d.rasterByte2
    outputPtr2 := d.outputPtr2 + dir
    rasterByte2 := 0 }
  else d

/-- `*diffusionErrorPtr++ = 0`. -/
def clearError (dir : Int) (d : Diffuser) : Diffuser :=
  let d := writeError 0 d
  { d with diffusionErrorPtr := d.diffusionErrorPtr + dir }

def skipWhite (dir : Int) (hifipe : Bool) (d : Diffuser) : Diffuser :=
  let d := { d with inputPtr := d.inputPtr + 8 * dir, rasterByte1 := 0, rasterByte2 := 0 }
  let d := emit dir hifipe d
  setTmpShortStore 0 ((clearError dir)^[8] d)

/-- `Forward16PixelsNonWhite` and `Backward16PixelsNonWhite`. -/
def sixteenPixelsNonWhite (dir : Int) (input : Mem) (inputPtr : Int) : Bool :=
  (List.range 16).any fun k => input (inputPtr + dir * k).toNat != 0

end Diffuser

/-- The members of `THTDitherParms` that `HTEDiffOpen` reads; `fErr` is one short
into the buffer given here. -/
structure DitherParms where
  fNumPix : Nat
  fInput : Mem
  fOutput1 : Mem
  fOutput2 : Mem
  fFEDResPtr : Mem
  fErr : Nat → Int
  fRasterEvenOrOdd : Int
  fHifipe : Bool

namespace Diffuser

variable (p : DitherParms)

def numLoop : Nat := p.fNumPix % 65536

def dir : Int := if p.fRasterEvenOrOdd = 1 then 1 else -1

def forwardMasks : List UInt8 := [0x80, 0x40, 0x20, 0x10, 0x08, 0x04, 0x02, 0x01]

def backwardMasks : List UInt8 := [0x01, 0x02, 0x04, 0x08, 0x10, 0x20, 0x40, 0x80]

def next8Pixels (d : Diffuser) : Diffuser :=
  if p.fRasterEvenOrOdd = 1 then
    pixels (forwardFed p.fFEDResPtr p.fInput) forwardMasks d
  else pixels (backwardFed p.fFEDResPtr p.fInput) backwardMasks d

/-- `doNext8Pixels`: if the next 16 pixels are white, skip 8. -/
def doNext8Pixels (d : Diffuser) : Bool :=
  if d.pixelCount > 16 then sixteenPixelsNonWhite (dir p) p.fInput d.inputPtr else true

/-- The step and the body of the loop over `pixelCount`. -/
def group (d : Diffuser) : Diffuser :=
  let d := { d with pixelCount := short (d.pixelCount - 8) }
  if doNext8Pixels p d then emit (dir p) p.fHifipe (next8Pixels p d)
  else skipWhite (dir p) p.fHifipe d

/-- The members as `HTEDiffOpen` sets them up for a row. -/
def init (holdRandom : UInt32) : Diffuser :=
  let back : Int := if p.fRasterEvenOrOdd = 1 then 0 else (numLoop p : Int) - 1
  let backByte : Int := if p.fRasterEvenOrOdd = 1 then 0 else ((numLoop p / 8 : Nat) : Int) - 1
  { inputPtr := back
    diffusionErrorPtr := 1 + back
    outputPtr1 := backByte
    outputPtr2 := backByte
    pixelCount := short (numLoop p + 8)
    tone := 0
    tmpShortStore := 0
    level := 0
    rasterByte1 := 0
    rasterByte2 := 0
    rasterByte3 := 0
    holdRandom := holdRandom
    err := p.fErr
    output1 := p.fOutput1
    output2 := p.fOutput2
    log := [] }

def start (holdRandom : UInt32) : Diffuser := writeError 0 (carryError 0 (init p holdRandom))

end Diffuser

/-- `Halftoner::HTEDiffOpen`; no loop of eights over `numLoop` needs more rounds. -/
def hteDiffOpen (p : DitherParms) (holdRandom : UInt32) : Option Diffuser :=
  whileDo (fun d : Diffuser => 0 < short (d.pixelCount - 8)) (Diffuser.group p)
    (1 + Diffuser.numLoop p) (Diffuser.start p holdRandom)

/-! ## A raster -/

/-- The members of `Halftoner` that the entry points change, and the log of the
diffusion with the plane of each event. -/
structure State where
  nNextRaster : Int
  started : Bool
  holdRandom : UInt32
  errBuff : Nat → Nat → Int
  colorPlane : Nat → Nat → Nat → Mem
  tempBuffer : Mem
  originalKData : Mem
  /-- The black half of the raster at hand, which is passed on. -/
  blackData : Option Mem
  iColor : Nat
  iRow : Nat
  iPlane : Nat
  iRastersReady : Nat
  iRastersDelivered : Nat
  log : List (Nat × Event)

variable (cfg : Config)

/-- `Halftoner::Restart`. -/
def restart (s : State) : State :=
  { s with
    nNextRaster := 0
    errBuff := fun i =>
      if i ∈ cfg.planes then blit (s.errBuff i) 0 (fun _ => 0) (cfg.outputWidth i + 2)
      else s.errBuff i
    started := false }

/-- `Halftoner::Flush`. -/
def flush (s : State) : State := if ¬ s.started then s else restart cfg s

/-- One pixel of `PixelMultiply`. -/
def multiplyPixel (factor : Nat) (buffer : Mem) (j : Nat) : Mem :=
  (List.range factor).foldl (fun b k => Function.update b (j * factor + k) (b j)) buffer

/-- `PixelMultiply`, from the last pixel to the first. -/
def pixelMultiply (buffer : Mem) (width factor : Nat) : Mem :=
  if factor = 1 then buffer
  else (List.range width).reverse.foldl (multiplyPixel factor) buffer

/-- `CleanOddBits`, of one bit plane. -/
def cleanOddBits (i : Nat) (plane : Mem) : Mem :=
  let index := cfg.outputWidth i / 8 - 1
  let oddbits := UInt8.ofNat cfg.oddbits
  Function.update plane index ((plane index >>> oddbits) <<< oddbits)

/-- The parameters of row `j` of plane `i`. -/
def ditherParms (i j numpix : Nat) (input : Mem) (s : State) : DitherParms where
  fNumPix := numpix
  fInput := input
  fOutput1 := s.colorPlane i j 0
  fOutput2 := s.colorPlane i j 1
  fFEDResPtr := cfg.fedResTbl i
  fErr := s.errBuff i
  fRasterEvenOrOdd := if s.nNextRaster % 2 = 1 then 0 else 1
  fHifipe := decide (cfg.colorDepth i > 1)

/-- What the diffusion of row `j` of plane `i` leaves behind. -/
def store (i j : Nat) (d : Diffuser) (s : State) : State :=
  let row := fun k =>
    if k = 0 then d.output1
    else if k = 1 ∧ cfg.colorDepth i > 1 then d.output2
    else s.colorPlane i j k
  let row := fun k => if k < cfg.colorDepth i then cleanOddBits cfg i (row k) else row k
  { s with
    holdRandom := d.holdRandom
    errBuff := Function.update s.errBuff i d.err
    colorPlane := Function.update s.colorPlane i (Function.update (s.colorPlane i) j row)
    log := d.log.map (fun e => (i, e)) ++ s.log }

/-- Row `j` of plane `i`. -/
def diffuseRow (i numpix : Nat) (input : Mem) (s : State) (j : Nat) : Except State State :=
  match hteDiffOpen (ditherParms cfg i j numpix input s) s.holdRandom with
  | none => .error s
  | some d => .ok (store cfg i j d s)

/-- All rows of plane `i`. -/
def diffuseRows (i numpix : Nat) (input : Mem) (s : State) : Except State State :=
  (List.range (cfg.numRows i)).foldlM (diffuseRow cfg i numpix input) s

/-- `tempBuffer` after the input of plane `i` was expanded into it. -/
def expand (i : Nat) (raster tempBuffer : Mem) : Mem :=
  pixelMultiply (blit (memset tempBuffer 0 (cfg.outputWidth i)) 0 raster cfg.inputWidth)
    cfg.inputWidth (cfg.factor i)

/-- `tempBuffer` was allocated, with room for plane `i`. -/
def Config.HasRoom (i : Nat) : Prop :=
  cfg.adjustedInputWidth < cfg.outputWidth K ∧ cfg.outputWidth i ≤ cfg.outputWidth K

instance (i : Nat) : Decidable (cfg.HasRoom i) := by
  unfold Config.HasRoom
  infer_instance

/-- Plane `i` of a raster; `rasterdata` has moved on by the width of each plane
before it. -/
def diffusePlane (raster : Mem) (s : State) (i : Nat) : Except State State :=
  let raster : Mem := fun x => raster (cfg.offset i + x)
  if cfg.outputWidth i > cfg.adjustedInputWidth then
    if cfg.HasRoom i then
      let s := { s with tempBuffer := expand cfg i raster s.tempBuffer }
      diffuseRows cfg i (cfg.outputWidth i) s.tempBuffer s
    else .error s
  else diffuseRows cfg i cfg.adjustedInputWidth raster s

/-- `++nNextRaster`. -/
def nextRaster (s : State) : State :=
  let next := short (s.nNextRaster + 1)
  { s with nNextRaster := if next = -1 then 0 else next }

/-- The colour half of `Process`. -/
def processColor (color : Option Mem) (s : State) : Except State State :=
  match color with
  | none => .ok s
  | some raster => cfg.planes.foldlM (diffusePlane cfg raster) (nextRaster s)

/-- Set the bits of the pixels that are not white, over a cleared buffer. -/
def packBits (pixels originalKData : Mem) (n : Nat) : Mem :=
  (List.range n).foldl (fun m i =>
    if pixels i ≠ 0 then Function.update m (i / 8) (m (i / 8) ||| (0x80 >>> UInt8.ofNat (i % 8)))
    else m) (memset originalKData 0 ((n + 7) / 8))

/-- `for (k = 0; k < n; k++) plane[k] |= originalKData[k]`. -/
def mergeBits (plane originalKData : Mem) (n : Nat) : Mem :=
  fun k => if k < n then plane k ||| originalKData k else plane k

/-- `tempBuffer` after the black half was expanded into it. -/
def expandBlack (data : Mem) (size : Nat) (tempBuffer : Mem) : Mem :=
  pixelMultiply (blit (memset tempBuffer 0 (cfg.outputWidth K)) 0 data size) size (cfg.factor K)

/-- The bits of the black half: its bytes, and the buffers that were used. -/
def packBlack (data : Mem) (size : Nat) (s : State) : Nat × State :=
  if cfg.outputWidth K > cfg.adjustedInputWidth then
    let pixels := expandBlack cfg data size s.tempBuffer
    ((size * cfg.factor K + 7) / 8, { s with
      tempBuffer := pixels
      originalKData := packBits pixels s.originalKData (size * cfg.factor K) })
  else
    ((size + 7) / 8, { s with originalKData := packBits data s.originalKData size })

/-- The black half of `Process`, of a raster that has one. -/
def mergeBlack (data : Mem) (size : Nat) (s : State) : State :=
  let bytes := (packBlack cfg data size s).1
  let s := (packBlack cfg data size s).2
  let merge := fun (k : Nat) (plane : Mem) =>
    if k = 0 ∧ 0 < cfg.colorDepth K then mergeBits plane s.originalKData bytes
    else if k = 1 ∧ 1 < cfg.colorDepth K then
      -- the statement is behind the loop: it merges the one byte that comes next
      Function.update plane bytes (plane bytes ||| s.originalKData bytes)
    else plane
  { s with
    colorPlane := fun i j k =>
      if i = K ∧ j < cfg.numRows K then merge k (s.colorPlane i j k) else s.colorPlane i j k }

def clearPlanes (s : State) : State :=
  { s with colorPlane := fun i j k =>
      if j < cfg.numRows i ∧ k < cfg.colorDepth i then
        memset (s.colorPlane i j k) 0 ((cfg.outputWidth i + 7) / 8)
      else s.colorPlane i j k }

/-- The black half of `Process`. -/
def processBlack (black : Option Mem) (size : Nat) (s : State) : State :=
  match black with
  | none => s
  | some data => mergeBlack cfg data size s

def ready (s : State) : State :=
  { s with
    iColor := cfg.startPlane
    iRow := 0
    iPlane := 0
    iRastersReady := cfg.planeCount
    iRastersDelivered := 0 }

/-- `Halftoner::Process`; the flag is its result. -/
def process (s : State) (input : Option RasterData) : Except State (State × Bool) :=
  match input with
  | none => .ok (restart cfg s, false)
  | some raster =>
    let color := raster.rasterdata .color
    let black := raster.rasterdata .black
    if color = none ∧ black = none then .ok (restart cfg s, false)
    else do
      let s := clearPlanes cfg { s with started := true, blackData := black }
      let s ← processColor cfg color s
      .ok (ready cfg (processBlack cfg black (raster.rastersize .black) s), true)

/-! ## Delivery -/

/-- `getOutputWidth`, of the raster delivered last: one size for the black layers and
one for all others. -/
def getOutputWidth (iRastersDelivered : Nat) : Nat :=
  let colorplane := if iRastersDelivered - 1 < cfg.numRows K * cfg.colorDepth K then K else C
  (cfg.outputWidth colorplane + 7) / 8

/-- The calls of `NextOutputRaster` to itself, up to a layer or the end. -/
def seek : Nat → State → Option (State × Bool)
  | 0, _ => none
  | fuel + 1, s =>
    if s.iRastersReady = 0 then some (s, false)
    else if s.iColor = cfg.dyeCount + cfg.startPlane then some (s, false)
    else if s.iPlane = cfg.colorDepth s.iColor then
      seek fuel { s with iPlane := 0, iRow := s.iRow + 1 }
    else if s.iRow = cfg.numRows s.iColor then
      seek fuel { s with iRow := 0, iColor := s.iColor + 1 }
    else some (s, true)

def deliverLayer (s : State) : State × RasterData :=
  let plane := s.colorPlane s.iColor s.iRow s.iPlane
  let s := { s with
    iRastersDelivered := s.iRastersDelivered + 1
    iRastersReady := s.iRastersReady - 1
    iPlane := s.iPlane + 1 }
  (s,
    { rastersize := fun
        | .color => getOutputWidth cfg s.iRastersDelivered
        | .black => 0
      rasterdata := fun
        | .color => some plane
        | .black => s.blackData })

/-- `Halftoner::NextOutputRaster`; an ink without bit planes keeps it in its calls. -/
def nextOutputRaster (s : State) : Option (State × Option RasterData) := do
  let (s, there) ← seek cfg (cfg.dyeCount + 3) s
  if there then
    let (s, raster) := deliverLayer cfg s
    some (s, some raster)
  else some (s, none)

/-! ## Runs -/

inductive Call
  | process (input : Option RasterData)
  | flush
  | restart

def exec (s : State) : Call → Except State State
  | .process input => (process cfg s input).map Prod.fst
  | .flush => .ok (flush cfg s)
  | .restart => .ok (restart cfg s)

def run (s : State) (calls : List Call) : Except State State := calls.foldlM (exec cfg) s

/-- A halftoner as its constructor leaves it, whatever its buffers held. -/
def new (heap : State) : State :=
  restart cfg { heap with
    holdRandom := 0
    iColor := 0
    iRow := 0
    iPlane := 0
    iRastersReady := 0
    iRastersDelivered := 0
    blackData := none
    log := [] }

def State.zero : State where
  nNextRaster := 0
  started := false
  holdRandom := 0
  errBuff := fun _ _ => 0
  colorPlane := fun _ _ _ _ => 0
  tempBuffer := fun _ => 0
  originalKData := fun _ => 0
  blackData := none
  iColor := 0
  iRow := 0
  iPlane := 0
  iRastersReady := 0
  iRastersDelivered := 0
  log := []

/-- One dot a pixel at the resolution of the input, with a table that gives every
value level 0 and itself as the part to threshold. -/
def Config.plain (dyeCount inputWidth : Nat) : Config where
  dyeCount := dyeCount
  inputWidth := inputWidth
  iNumRows := fun _ => 1
  resBoost := 1
  modeColorDepth := fun _ => 1
  blackFEDTable := fun k => if k % 4 = 1 then UInt8.ofNat (k / 4) else 0
  colorFEDTable := fun k => if k % 4 = 1 then UInt8.ofNat (k / 4) else 0
  resBoost_pos := Nat.one_pos

end Hplip.Hpcups.Halftoner
