import Mathlib
import Hplip.Ip.Ipmain
import Hplip.Lib.Slice

/-!
# The JPEG encoder (xjpg_enc.c)

The transform takes rows of pixels and gives a JPEG file: a header, the codes of the MCUs
from left to right and from top to bottom, and an end marker. What it has written so far is
the list of the bytes from the start of the output buffer; it never looks at how long that
buffer is except before an MCU.

The transform of a block of samples into coefficients and of these into codes is a parameter
of the section: it computes with floating-point scale factors, and none of the results here
depends on what it gives. Allocations succeed. Row counts are numbers, positions in the file
are 32-bit values.
-/

namespace Hplip.Ip.JpegEnc

/-! ## Writing bytes and bits -/

/-- A value stored into a `BYTE`. -/
def byte (v : Int) : UInt8 := (v % 256).toNat.toUInt8

def putInt (v : Int) : List UInt8 := [byte (v / 256), byte v]

def putMarker (marker : UInt8) : List UInt8 := [0xff, marker]

def putByteStuff (b : UInt8) : List UInt8 := if b = 0xff then [b, 0] else [b]

/-- What the coding of blocks carries on: the bit cache and the prior DC values. -/
structure Coder where
  wrBitBuf : UInt32
  wrBitsAvail : Nat
  priorDC : List Int

/-- `write_init` and `zero_prior_DC`. -/
def Coder.init : Coder := ⟨0, 32, [0, 0, 0, 0]⟩

/-- The loop of `write_bits_flush`, `n` times. -/
def flushBytes : Nat → UInt32 → List UInt8
  | 0, _ => []
  | n + 1, buf => putByteStuff (buf >>> 24).toUInt8 ++ flushBytes n (buf <<< 8)

def writeBitsFlush (c : Coder) : Coder × List UInt8 :=
  if c.wrBitsAvail ≠ 32 then
    let wrBitBuf := c.wrBitBuf ||| ((1 <<< c.wrBitsAvail.toUInt32) - 1)
    ({ c with wrBitBuf := 0, wrBitsAvail := 32 },
      flushBytes ((32 - c.wrBitsAvail + 7) / 8) wrBitBuf)
  else (c, [])

/-! ## The instance -/

abbrev maxMcuSize : Nat := 6 * 304
abbrev maxHeaderSize : Nat := 2000
abbrev outbufNumMcus : Nat := 2
abbrev qDefault : Nat := 20
abbrev monoFactors : Nat := 0x10001000
abbrev colorFactors : Nat := 0x21102110

/-- `aXformInfo`, as `setXformSpec` takes it. -/
structure XformSpec where
  qualityFactors : Nat
  sampleFactors : Nat
  alreadySubsampled : Bool
  forDenali : Bool
  outputDNL : Bool
  forColorFax : Bool
  dummyHeaderLen : Nat

/-- The configuration part of `JENC_INST`, less the number of rows in the page. -/
structure Config where
  lumQuant : List UInt8
  chromQuant : List UInt8
  inputSubsampled : Bool
  fDenali : Bool
  fOutputDNL : Bool
  fOutputG3APP1 : Bool
  dwDummyHeaderBytes : Nat
  rowsInMcu : Nat
  colsInMcu : Nat
  mcusInRow : Nat
  sampleFactors : Nat
  horizSamFacs : List Nat
  vertSamFacs : List Nat
  maxHorizSamFac : Nat
  maxVertSamFac : Nat
  dcQFactor : Nat
  acQFactor : Nat
  compsInPixel : Nat
  pixelsInRow : Nat
  xRes : Int
  yRes : Int

/-- `in_rows_ap`: the samples by component, row and column. -/
abbrev Rows := Nat → Nat → Bytes

structure JencInst where
  cfg : Config
  rowsInPage : Int
  coder : Coder
  rowsReceived : Nat
  rowsLoaded : Nat
  mcusSent : Nat
  loadingRows : Bool
  inRows : Rows
  fDidHeader : Bool
  dwInNextPos : UInt32
  dwOutNextPos : UInt32

/-- The instance as `openXform` leaves it, all zero. -/
def openXform : JencInst where
  cfg :=
    { lumQuant := List.replicate 64 0, chromQuant := List.replicate 64 0,
      inputSubsampled := false, fDenali := false, fOutputDNL := false, fOutputG3APP1 := false,
      dwDummyHeaderBytes := 0, rowsInMcu := 0, colsInMcu := 0, mcusInRow := 0,
      sampleFactors := 0, horizSamFacs := [0, 0, 0, 0], vertSamFacs := [0, 0, 0, 0],
      maxHorizSamFac := 0, maxVertSamFac := 0, dcQFactor := 0, acQFactor := 0,
      compsInPixel := 0, pixelsInRow := 0, xRes := 0, yRes := 0 }
  rowsInPage := 0
  coder := ⟨0, 0, [0, 0, 0, 0]⟩
  rowsReceived := 0
  rowsLoaded := 0
  mcusSent := 0
  loadingRows := false
  inRows := fun _ _ _ => 0
  fDidHeader := false
  dwInNextPos := 0
  dwOutNextPos := 0

def dots (dpi : Int) : Int := if dpi / 65536 < 0 then 300 else dpi / 65536

def setDefaultInputTraits (g : JencInst) (t : IpImageTraits) : Option JencInst :=
  if 0 < t.iPixelsPerRow ∧ (t.iComponentsPerPixel = 1 ∨ t.iComponentsPerPixel = 3) then
    some
      { g with
        cfg :=
          { g.cfg with
            pixelsInRow := t.iPixelsPerRow.toNat
            compsInPixel := t.iComponentsPerPixel.toNat
            xRes := dots t.lHorizDPI
            yRes := dots t.lVertDPI }
        rowsInPage := t.lNumRows
        fDidHeader := false }
  else none

def setXformSpec (g : JencInst) (x : XformSpec) : JencInst :=
  { g with
    cfg :=
      { g.cfg with
        sampleFactors := x.sampleFactors
        inputSubsampled := x.alreadySubsampled
        fDenali := x.forDenali
        fOutputDNL := x.outputDNL
        fOutputG3APP1 := x.forColorFax
        dwDummyHeaderBytes := x.dummyHeaderLen
        dcQFactor := x.qualityFactors / 256 % 256
        acQFactor := x.qualityFactors % 256 } }

/-- The output buffer that `getActualBufSizes` asks for. -/
def minOutBufLen : Nat := max (outbufNumMcus * maxMcuSize) maxHeaderSize

/-! ## The tables -/

def origLumQuant : List Nat :=
  [16, 11, 12, 14, 12, 10, 16, 14,
   13, 14, 18, 17, 16, 19, 24, 40,
   26, 24, 22, 22, 24, 49, 35, 37,
   29, 40, 58, 51, 61, 60, 57, 51,
   56, 55, 64, 72, 92, 78, 64, 68,
   87, 69, 55, 56, 80, 109, 81, 87,
   95, 98, 103, 104, 103, 62, 77, 113,
   121, 112, 100, 120, 92, 101, 103, 99]

def origChromQuant : List Nat :=
  [17, 18, 18, 24, 21, 24, 47, 26,
   26, 47, 99, 66, 56, 66, 99, 99,
   99, 99, 99, 99, 99, 99, 99, 99,
   99, 99, 99, 99, 99, 99, 99, 99,
   99, 99, 99, 99, 99, 99, 99, 99,
   99, 99, 99, 99, 99, 99, 99, 99,
   99, 99, 99, 99, 99, 99, 99, 99,
   99, 99, 99, 99, 99, 99, 99, 99]

def lumDCCounts : List UInt8 := [0, 1, 5, 1, 1, 1, 1, 1, 1, 0, 0, 0, 0, 0, 0, 0]

def lumDCValues : List UInt8 := [0, 1, 2, 3, 4, 5, 6, 7, 8, 9, 10, 11]

def chromDCCounts : List UInt8 := [0, 3, 1, 1, 1, 1, 1, 1, 1, 1, 1, 0, 0, 0, 0, 0]

def chromDCValues : List UInt8 := [0, 1, 2, 3, 4, 5, 6, 7, 8, 9, 10, 11]

def lumACCounts : List UInt8 := [0, 2, 1, 3, 3, 2, 4, 3, 5, 5, 4, 4, 0, 0, 1, 0x7d]

def lumACCountsDenali : List UInt8 := [0, 2, 1, 3, 3, 2, 4, 3, 5, 5, 4, 4, 0, 0, 0, 0x7e]

def lumACValues : List UInt8 :=
  [0x01, 0x02, 0x03, 0x00, 0x04, 0x11, 0x05, 0x12, 0x21, 0x31, 0x41, 0x06,
   0x13, 0x51, 0x61, 0x07, 0x22, 0x71, 0x14, 0x32, 0x81, 0x91, 0xa1, 0x08,
   0x23, 0x42, 0xb1, 0xc1, 0x15, 0x52, 0xd1, 0xf0, 0x24, 0x33, 0x62, 0x72,
   0x82, 0x09, 0x0a, 0x16, 0x17, 0x18, 0x19, 0x1a, 0x25, 0x26, 0x27, 0x28,
   0x29, 0x2a, 0x34, 0x35, 0x36, 0x37, 0x38, 0x39, 0x3a, 0x43, 0x44, 0x45,
   0x46, 0x47, 0x48, 0x49, 0x4a, 0x53, 0x54, 0x55, 0x56, 0x57, 0x58, 0x59,
   0x5a, 0x63, 0x64, 0x65, 0x66, 0x67, 0x68, 0x69, 0x6a, 0x73, 0x74, 0x75,
   0x76, 0x77, 0x78, 0x79, 0x7a, 0x83, 0x84, 0x85, 0x86, 0x87, 0x88, 0x89,
   0x8a, 0x92, 0x93, 0x94, 0x95, 0x96, 0x97, 0x98, 0x99, 0x9a, 0xa2, 0xa3,
   0xa4, 0xa5, 0xa6, 0xa7, 0xa8, 0xa9, 0xaa, 0xb2, 0xb3, 0xb4, 0xb5, 0xb6,
   0xb7, 0xb8, 0xb9, 0xba, 0xc2, 0xc3, 0xc4, 0xc5, 0xc6, 0xc7, 0xc8, 0xc9,
   0xca, 0xd2, 0xd3, 0xd4, 0xd5, 0xd6, 0xd7, 0xd8, 0xd9, 0xda, 0xe1, 0xe2,
   0xe3, 0xe4, 0xe5, 0xe6, 0xe7, 0xe8, 0xe9, 0xea, 0xf1, 0xf2, 0xf3, 0xf4,
   0xf5, 0xf6, 0xf7, 0xf8, 0xf9, 0xfa]

def chromACCounts : List UInt8 := [0, 2, 1, 2, 4, 4, 3, 4, 7, 5, 4, 4, 0, 1, 2, 0x77]

def chromACValues : List UInt8 :=
  [0x00, 0x01, 0x02, 0x03, 0x11, 0x04, 0x05, 0x21, 0x31, 0x06, 0x12, 0x41,
   0x51, 0x07, 0x61, 0x71, 0x13, 0x22, 0x32, 0x81, 0x08, 0x14, 0x42, 0x91,
   0xa1, 0xb1, 0xc1, 0x09, 0x23, 0x33, 0x52, 0xf0, 0x15, 0x62, 0x72, 0xd1,
   0x0a, 0x16, 0x24, 0x34, 0xe1, 0x25, 0xf1, 0x17, 0x18, 0x19, 0x1a, 0x26,
   0x27, 0x28, 0x29, 0x2a, 0x35, 0x36, 0x37, 0x38, 0x39, 0x3a, 0x43, 0x44,
   0x45, 0x46, 0x47, 0x48, 0x49, 0x4a, 0x53, 0x54, 0x55, 0x56, 0x57, 0x58,
   0x59, 0x5a, 0x63, 0x64, 0x65, 0x66, 0x67, 0x68, 0x69, 0x6a, 0x73, 0x74,
   0x75, 0x76, 0x77, 0x78, 0x79, 0x7a, 0x82, 0x83, 0x84, 0x85, 0x86, 0x87,
   0x88, 0x89, 0x8a, 0x92, 0x93, 0x94, 0x95, 0x96, 0x97, 0x98, 0x99, 0x9a,
   0xa2, 0xa3, 0xa4, 0xa5, 0xa6, 0xa7, 0xa8, 0xa9, 0xaa, 0xb2, 0xb3, 0xb4,
   0xb5, 0xb6, 0xb7, 0xb8, 0xb9, 0xba, 0xc2, 0xc3, 0xc4, 0xc5, 0xc6, 0xc7,
   0xc8, 0xc9, 0xca, 0xd2, 0xd3, 0xd4, 0xd5, 0xd6, 0xd7, 0xd8, 0xd9, 0xda,
   0xe2, 0xe3, 0xe4, 0xe5, 0xe6, 0xe7, 0xe8, 0xe9, 0xea, 0xf2, 0xf3, 0xf4,
   0xf5, 0xf6, 0xf7, 0xf8, 0xf9, 0xfa]

/-- `scale_q_table`: the DC factor up to the element 9, the AC factor behind it. -/
def scaleQTable (dcQFactor acQFactor : Nat) (tbl : List Nat) : List UInt8 :=
  tbl.zipIdx.map fun (v, i) =>
    let q := if i ≤ 9 then dcQFactor else acQFactor
    (min 255 (max 1 ((v * q + qDefault / 2) / qDefault))).toUInt8

/-- What `scale_for_wino` changes in the table it is given. -/
def fixLast (tbl : List UInt8) : List UInt8 := tbl.set 63 (max 2 (tbl.getD 63 0))

/-! ## The header -/

def emWriteSOI : List UInt8 := putMarker 0xd8

def emWriteEOI : List UInt8 := putMarker 0xd9

def emWriteJfifApp0 (xRes yRes : Int) : List UInt8 :=
  putMarker 0xe0 ++ putInt 16 ++ [0x4a, 0x46, 0x49, 0x46, 0] ++ [1, 0] ++ [1]
    ++ putInt xRes ++ putInt yRes ++ [0, 0]

def emWriteG3App1 (res : Int) : List UInt8 :=
  let res := (res + 50) / 100 * 100
  putMarker 0xe1 ++ putInt 12 ++ [0x47, 0x33, 0x46, 0x41, 0x58, 0] ++ putInt 1994 ++ putInt res

def emWriteSOF (width height : Int) (ncomps : Nat) (hSamFacs vSamFacs : List Nat) :
    List UInt8 :=
  putMarker 0xc0 ++ putInt (8 + ncomps * 3) ++ [8] ++ putInt height ++ putInt width
    ++ [byte ncomps]
    ++ (List.range ncomps).flatMap fun (i : Nat) =>
      [byte i, byte (hSamFacs.getD i 0 * 16 + vSamFacs.getD i 0 : Nat), if i = 0 then 0 else 1]

def emWriteDQT (precision ident : UInt8) (elements : List UInt8) : List UInt8 :=
  putMarker 0xdb ++ putInt 67 ++ [(precision <<< 4) + ident] ++ elements

/-- A Huffman table: `hclass`, `ident`, `counts` and `huffval`. -/
abbrev HuffTable := UInt8 × UInt8 × List UInt8 × List UInt8

def numCodes (counts : List UInt8) : Nat := (counts.map UInt8.toNat).sum

def emWriteDHTs (tables : List HuffTable) : List UInt8 :=
  let nvals := (tables.map fun (_, _, counts, _) => numCodes counts).sum
  putMarker 0xc4 ++ putInt (2 + 17 * tables.length + nvals : Nat)
    ++ tables.flatMap fun (hclass, ident, counts, huffval) =>
      [(hclass <<< 4) ||| ident] ++ counts ++ huffval.take (numCodes counts)

def emWriteSOS (ncomps : Nat) : List UInt8 :=
  putMarker 0xda ++ putInt (6 + 2 * ncomps) ++ [byte ncomps]
    ++ ((List.range ncomps).flatMap fun i => [byte i, if i = 0 then 0x00 else 0x11])
    ++ [0, 63, 0]

def emWriteDNL (nlines : Nat) : List UInt8 := putMarker 0xdc ++ putInt 4 ++ putInt nlines

/-- The tables of `output_header`, all four of them for a colour image. -/
def huffTables (g : Config) : List HuffTable :=
  [(0, 0, lumDCCounts, lumDCValues),
   (1, 0, if g.fDenali then lumACCountsDenali else lumACCounts, lumACValues),
   (0, 1, chromDCCounts, chromDCValues),
   (1, 1, chromACCounts, chromACValues)].take (if g.compsInPixel = 1 then 2 else 4)

def tableSegments (g : Config) : List UInt8 :=
  emWriteDQT 0 0 g.lumQuant
    ++ (if g.compsInPixel > 1 then emWriteDQT 0 1 g.chromQuant else [])
    ++ emWriteDHTs (huffTables g) ++ emWriteSOS g.compsInPixel

def outputHeader (g : Config) (rowsInPage : Int) : List UInt8 :=
  emWriteSOI
    ++ (if g.fOutputG3APP1 then emWriteG3App1 g.xRes else emWriteJfifApp0 g.xRes g.yRes)
    ++ emWriteSOF g.pixelsInRow (if rowsInPage < 0 then 0 else rowsInPage) g.compsInPixel
      g.horizSamFacs g.vertSamFacs
    ++ tableSegments g

/-! ## Rows in, MCUs out -/

def whitePixel : Nat → UInt8
  | 0 => 255
  | 1 => 128
  | 2 => 128
  | _ => 255

def whiteRows : Rows := fun comp _ _ => whitePixel comp

def setRow (rows : Rows) (comp row : Nat) (f : Bytes → Bytes) : Rows :=
  Function.update rows comp (Function.update (rows comp) row (f (rows comp row)))

/-- `count` samples, every `inc`-th byte of the input from `start` on. -/
def copyEvery (inBuf : Bytes) (start inc count : Nat) (row : Bytes) : Bytes := fun col =>
  if col < count then inBuf (start + inc * col) else row col

/-- The slow general case: the first `samFac` pixels of every `maxFac`. -/
def copySome (inBuf : Bytes) (start inc samFac maxFac pixels : Nat) (row : Bytes) : Bytes :=
  ((List.range pixels).foldl (fun (s : Bytes × Nat × Nat) col =>
    let (row, next, horizMod) := s
    let (row, next) :=
      if horizMod < samFac then (Function.update row next (inBuf (start + inc * col)), next + 1)
      else (row, next)
    (row, next, if horizMod + 1 = maxFac then 0 else horizMod + 1)) (row, 0, 0)).1

/-- A row of one component, subsampled: four pixels at a time, or four of eight, or slowly. -/
def copyRow (g : Config) (inBuf : Bytes) (comp : Nat) (row : Bytes) : Bytes :=
  let samFac := g.horizSamFacs.getD comp 0
  if samFac = g.maxHorizSamFac then
    if g.compsInPixel = 1 then copyEvery inBuf comp 1 g.pixelsInRow row
    else copyEvery inBuf comp g.compsInPixel ((g.pixelsInRow + 3) / 4 * 4) row
  else if samFac = 1 ∧ g.maxHorizSamFac = 2 then
    copyEvery inBuf comp (2 * g.compsInPixel) ((g.pixelsInRow + 7) / 8 * 4) row
  else copySome inBuf comp g.compsInPixel samFac g.maxHorizSamFac g.pixelsInRow row

def putSample (inBuf : Bytes) (comp row col : Nat) (s : Rows × Nat) : Rows × Nat :=
  (setRow s.1 comp row fun r => Function.update r col (inBuf s.2), s.2 + 1)

def copy411 (inBuf : Bytes) (vertPeriod : Nat) (s : Rows × Nat) (horizPeriod : Nat) :
    Rows × Nat :=
  let s := putSample inBuf 0 (2 * vertPeriod) (2 * horizPeriod) s
  let s := putSample inBuf 0 (2 * vertPeriod) (2 * horizPeriod + 1) s
  let s := putSample inBuf 0 (2 * vertPeriod + 1) (2 * horizPeriod) s
  let s := putSample inBuf 0 (2 * vertPeriod + 1) (2 * horizPeriod + 1) s
  let s := putSample inBuf 1 vertPeriod horizPeriod s
  putSample inBuf 2 vertPeriod horizPeriod s

def copyPeriod (g : Config) (inBuf : Bytes) (vertPeriod : Nat) (s : Rows × Nat)
    (horizPeriod : Nat) : Rows × Nat :=
  (List.range g.compsInPixel).foldl (fun s comp =>
    let v := g.vertSamFacs.getD comp 0
    let h := g.horizSamFacs.getD comp 0
    (List.range v).foldl (fun s row =>
      (List.range h).foldl (fun s col =>
        putSample inBuf comp (vertPeriod * v + row) (horizPeriod * h + col) s) s) s) s

def Config.TakesPixels (g : Config) : Prop :=
  g.inputSubsampled = false ∨ (g.maxVertSamFac = 1 ∧ g.maxHorizSamFac = 1)

instance (g : Config) : Decidable g.TakesPixels :=
  inferInstanceAs (Decidable (_ ∨ _))

/-- The row buffers, the number of rows and the number of bytes that were taken. -/
def copyInRows (g : Config) (rowIndex : Nat) (inBuf : Bytes) (rows : Rows) : Rows × Nat × Nat :=
  let vertPeriod := rowIndex / g.maxVertSamFac
  let vertMod := rowIndex % g.maxVertSamFac
  if g.TakesPixels then
    ((List.range g.compsInPixel).foldl (fun rows comp =>
      let samFac := g.vertSamFacs.getD comp 0
      if vertMod < samFac then
        setRow rows comp (vertPeriod * samFac + vertMod) (copyRow g inBuf comp)
      else rows) rows, 1, g.compsInPixel * g.pixelsInRow)
  else
    let (rows, used) :=
      (List.range (g.mcusInRow * 8)).foldl
        (if g.sampleFactors = colorFactors then copy411 inBuf vertPeriod
          else copyPeriod g inBuf vertPeriod) (rows, 0)
    (rows, g.maxVertSamFac, used)

section

-- `dct_forward` and `encode_block`: with the flag and the quantization table it goes by, the
-- component and the level-shifted samples of the block
variable (codeBlock : Bool → List UInt8 → Nat → List Int → Coder → Coder × List UInt8)

def blockAt (rows : Rows) (comp ulRow ulCol : Nat) : List Int :=
  (List.range 8).flatMap fun row =>
    (List.range 8).map fun col => ((rows comp (ulRow + row) (ulCol + col)).toNat : Int) - 128

/-- The blocks of an MCU in the order they are coded: their component, row and column. -/
def mcuBlocks (g : Config) (mcuIndex : Nat) : List (Nat × Nat × Nat) :=
  (List.range g.compsInPixel).flatMap fun comp =>
    (List.range (g.vertSamFacs.getD comp 0)).flatMap fun vBlock =>
      (List.range (g.horizSamFacs.getD comp 0)).map fun hBlock =>
        (comp, vBlock * 8, (mcuIndex * g.horizSamFacs.getD comp 0 + hBlock) * 8)

def encodeMcu (g : Config) (rows : Rows) (mcuIndex : Nat) (c : Coder) : Coder × List UInt8 :=
  (mcuBlocks g mcuIndex).foldl (fun s (comp, ulRow, ulCol) =>
    let quant := if comp = 0 then g.lumQuant else g.chromQuant
    let (c, bytes) := codeBlock g.fDenali quant comp (blockAt rows comp ulRow ulCol) s.1
    (c, s.2 ++ bytes)) (c, [])

/-! ## A call -/

/-- What a call answers, less the permanent `IP_READY_FOR_DATA`; `consumed` is
`IP_CONSUMED_ROW | IP_PRODUCED_ROW`. -/
structure Reply where
  done : Bool
  consumed : Bool
  inputUsed : Nat
  inputNextPos : UInt32
  output : List UInt8
  outputThisPos : UInt32

def factors (word : Nat) : List Nat :=
  [word / 4096 % 16, word / 256 % 16, word / 16 % 16, word % 16]

def maxFactor (facs : List Nat) : Nat := facs.foldl max 0

def Config.complete (g : Config) : Config :=
  let acQFactor := if g.acQFactor = 0 then qDefault else g.acQFactor
  let dcQFactor := if g.dcQFactor = 0 then acQFactor else g.dcQFactor
  let sampleFactors :=
    if g.sampleFactors = 0 then (if g.compsInPixel = 1 then monoFactors else colorFactors)
    else g.sampleFactors
  let horizSamFacs := factors (sampleFactors / 65536)
  let vertSamFacs := factors (sampleFactors % 65536)
  let colsInMcu := maxFactor horizSamFacs * 8
  { g with
    acQFactor
    dcQFactor
    sampleFactors
    horizSamFacs
    vertSamFacs
    maxHorizSamFac := maxFactor horizSamFacs
    maxVertSamFac := maxFactor vertSamFacs
    colsInMcu
    rowsInMcu := maxFactor vertSamFacs * 8
    mcusInRow := (g.pixelsInRow + colsInMcu - 1) / colsInMcu
    lumQuant := fixLast (scaleQTable dcQFactor acQFactor origLumQuant)
    chromQuant := fixLast (scaleQTable dcQFactor acQFactor origChromQuant) }

/-- The header, or as many bytes as were asked for in place of it, as they are in the buffer. -/
def firstBytes (g : Config) (rowsInPage : Int) (outBuf : Bytes) : List UInt8 :=
  if g.dwDummyHeaderBytes = 0 then outputHeader g rowsInPage
  else slice outBuf 0 g.dwDummyHeaderBytes

def initHeader (g : JencInst) (outBuf : Bytes) : JencInst × Reply :=
  let cfg := g.cfg.complete
  let output := firstBytes cfg g.rowsInPage outBuf
  ({ g with
      cfg
      rowsLoaded := 0
      mcusSent := 0
      loadingRows := true
      coder := .init
      dwInNextPos := 0
      dwOutNextPos := UInt32.ofNat output.length
      fDidHeader := true },
    { done := false, consumed := false, inputUsed := 0, inputNextPos := 0, output,
      outputThisPos := 0 })

def flush (g : JencInst) (nLoaded : Nat) (r : Reply) : JencInst × Reply :=
  if nLoaded ≠ 0 then
    -- some rows were loaded, so they are compressed now
    ({ g with loadingRows := false, rowsLoaded := g.rowsLoaded + (g.cfg.rowsInMcu - nLoaded) }, r)
  else if (g.rowsInPage < 0 ∨ (g.rowsReceived : Int) < g.rowsInPage)
      ∧ g.cfg.dwDummyHeaderBytes = 0 then
    -- the row count was unknown or too big
    ({ g with rowsInPage := g.rowsReceived },
      { r with output := outputHeader g.cfg g.rowsReceived, outputThisPos := 0 })
  else
    let (coder, bits) := writeBitsFlush g.coder
    ({ g with coder },
      { r with
        done := true
        output := bits ++ (if g.cfg.fOutputDNL then emWriteDNL g.rowsReceived else [])
          ++ emWriteEOI })

def takeRow (g : JencInst) (nLoaded : Nat) (inBuf : Bytes) (r : Reply) : JencInst × Reply :=
  let (rows, nRows, nBytes) := copyInRows g.cfg nLoaded inBuf g.inRows
  let rowsLoaded := g.rowsLoaded + nRows
  ({ g with
      inRows := rows
      rowsLoaded
      rowsReceived := g.rowsReceived + nRows
      dwInNextPos := g.dwInNextPos + UInt32.ofNat nBytes
      loadingRows := if rowsLoaded % g.cfg.rowsInMcu = 0 then false else g.loadingRows },
    { r with
      consumed := decide (nRows > 0)
      inputUsed := nBytes
      inputNextPos := g.dwInNextPos + UInt32.ofNat nBytes })

def loadRows (g : JencInst) (inBuf : Option Bytes) (r : Reply) : JencInst × Reply :=
  let nLoaded := g.rowsLoaded % g.cfg.rowsInMcu
  let g := if nLoaded = 0 then { g with inRows := whiteRows } else g
  match inBuf with
  | none => flush g nLoaded r
  | some p => takeRow g nLoaded p r

def sendMcu (g : JencInst) : JencInst × List UInt8 :=
  let (coder, bytes) := encodeMcu codeBlock g.cfg g.inRows g.mcusSent g.coder
  let last := decide (g.cfg.mcusInRow ≤ g.mcusSent + 1)
  ({ g with
      coder
      dwOutNextPos := g.dwOutNextPos + UInt32.ofNat bytes.length
      mcusSent := if last then 0 else g.mcusSent + 1
      loadingRows := last }, bytes)

def JencInst.mcusLeft (g : JencInst) : Nat :=
  if g.loadingRows then 0 else g.cfg.mcusInRow - g.mcusSent + 1

theorem sendMcu_mcusLeft {g : JencInst} (h : g.loadingRows = false) :
    (sendMcu codeBlock g).1.mcusLeft < g.mcusLeft := by
  rw [JencInst.mcusLeft, JencInst.mcusLeft, h]
  dsimp only [sendMcu]
  by_cases hlast : g.cfg.mcusInRow ≤ g.mcusSent + 1
  · simp [hlast]
  · simp only [hlast, decide_false, Bool.false_eq_true, if_false]
    lia

/-- As many MCUs as fit, by the room that is left behind `out`. -/
def sendMcus (outputAvail : UInt32) (g : JencInst) (out : List UInt8) : JencInst × List UInt8 :=
  if g.loadingRows = false ∧ maxMcuSize < (outputAvail - UInt32.ofNat out.length).toNat then
    sendMcus outputAvail (sendMcu codeBlock g).1 (out ++ (sendMcu codeBlock g).2)
  else (g, out)
termination_by g.mcusLeft
decreasing_by
  rename_i h
  exact sendMcu_mcusLeft codeBlock h.1

def convert (g : JencInst) (inBuf : Option Bytes) (outputAvail : UInt32) (outBuf : Bytes) :
    JencInst × Reply :=
  let r : Reply :=
    { done := false, consumed := false, inputUsed := 0, inputNextPos := g.dwInNextPos,
      output := [], outputThisPos := g.dwOutNextPos }
  if g.fDidHeader = false then initHeader g outBuf
  else
    let (g, r) := if g.loadingRows then loadRows g inBuf r else (g, r)
    let (g, output) := sendMcus codeBlock outputAvail g r.output
    (g, { r with output })

end

end Hplip.Ip.JpegEnc
