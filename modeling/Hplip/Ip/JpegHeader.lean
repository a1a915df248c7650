import Hplip.Lib.Faults
import Hplip.Ip.JpegTables

/-!
# Parsing a JPEG header (xjpg_dec.c)

The markers of the header are parsed one after the other, each by its own function, into one
state, until the start of scan or the short header of the OfficeJet firmware. A byte is read
wherever the parsers are in the buffer: they do not ask how many bytes there are. Reading
past the bytes that are offered and indexing an array outside its bounds are faults.

The quantization tables are kept as they are before their floating-point scaling. Allocations
succeed.
-/

namespace Hplip.Ip.JpegHdr

open Faults JpegEnc JpegDec

/-! ## The state -/

/-- How the call ends without a fault: a syntax error, or `IP_INPUT_ERROR`. -/
inductive HeaderError where
  | badMarkerId
  | badMarkerData
  | notImplemented
  | inputError
  deriving DecidableEq

structure Traits where
  lNumRows : Int
  iPixelsPerRow : Nat
  iComponentsPerPixel : Nat
  iBitsPerPixel : Nat
  lHorizDPI : Nat
  lVertDPI : Nat

/-- The part of `JDEC_INST` that a header sets. A table that no marker defined is `none`. -/
structure Header where
  next : Nat
  traits : Traits
  numComps : Nat
  horizSampFacs : List Nat
  vertSampFacs : List Nat
  maxHorizSampFac : Nat
  maxVertSampFac : Nat
  whichQuantTbl : List Nat
  whichDcTbl : List Nat
  whichAcTbl : List Nat
  rowsPerMcu : Nat
  colsPerMcu : Nat
  mcusPerRow : Nat
  rowCountOffset : Nat
  restartInterval : Nat
  quantTbls : Nat → Option (List Nat)
  dcTbls : Nat → Option HuffTbl
  acTbls : Nat → Option HuffTbl
  fColorFax : Bool
  fDenali : Bool
  gotShortHeader : Bool

/-- The instance as `openXform` leaves it, all zero but for the specification. -/
def openXform (fDenali : Bool) : Header where
  next := 0
  traits := ⟨0, 0, 0, 0, 0, 0⟩
  numComps := 0
  horizSampFacs := [0, 0, 0, 0]
  vertSampFacs := [0, 0, 0, 0]
  maxHorizSampFac := 0
  maxVertSampFac := 0
  whichQuantTbl := [0, 0, 0, 0]
  whichDcTbl := [0, 0, 0, 0]
  whichAcTbl := [0, 0, 0, 0]
  rowsPerMcu := 0
  colsPerMcu := 0
  mcusPerRow := 0
  rowCountOffset := 0
  restartInterval := 0
  quantTbls := fun _ => none
  dcTbls := fun _ => none
  acTbls := fun _ => none
  fColorFax := false
  fDenali
  gotShortHeader := false

abbrev Parser := Comp HeaderError Header

abbrev maxMarkerLen : Nat := 15000

/-- An index into an array of `size` elements. -/
def checkIndex (i size : Nat) : Parser Unit := if i < size then pure () else fault

@[irreducible] def uintSub (a b : Nat) : Nat := (a + 2 ^ 32 - b) % 2 ^ 32

/-! ## Reading -/

section

variable (buf : List UInt8)

def byteAt (i : Nat) : Nat := (buf.getD i 0).toNat

def readByte : Parser Nat := do
  let g ← get
  if g.next < buf.length then
    modify fun g => { g with next := g.next + 1 }
    return byteAt buf g.next
  else fault

def readUint : Parser Nat := do
  let hi ← readByte buf
  let lo ← readByte buf
  return hi * 256 + lo

/-- `n` times `read_byte`. -/
def readBytes : Nat → Parser (List UInt8)
  | 0 => return []
  | n + 1 => do
    let b ← readByte buf
    let bs ← readBytes n
    return b.toUInt8 :: bs

def readSkipForward (n : Nat) : Parser Unit :=
  if maxMarkerLen < n then giveUp .badMarkerData
  else modify fun g => { g with next := g.next + n }

def readSkipBackward (n : Nat) : Parser Unit := modify fun g => { g with next := g.next - n }

/-- The loop of `mar_get`: each round reads a byte. -/
def marGetLoop : Nat → Bool → Parser Nat
  | 0, _ => fault
  | rounds + 1, gotFf => do
    let marker ← readByte buf
    if marker = 0xff then marGetLoop rounds true
    else if gotFf = false ∨ marker = 0 then giveUp .badMarkerId
    else return marker

def marGet : Parser Nat := marGetLoop buf (buf.length + 1) false

/-! ## The markers -/

/-- `parse_factors`: the nibbles from left to right, and their maximum. -/
def parseFactors (factors : Nat) : List Nat × Nat :=
  let facs := [factors / 4096 % 16, factors / 256 % 16, factors / 16 % 16, factors % 16]
  (facs, facs.foldr max 0)

def calcQuantTable (dcQFac acQFac : Nat) (orig : List Nat) : List Nat :=
  orig.zipIdx.map fun (v, i) =>
    min 255 (max 1 ((v * (if i = 0 then dcQFac else acQFac) + 25) / 50))

/-- What `calc_table` needs: at least one code, as many as `huffsize` has elements, and the
entries of `index_p` for the short codes inside it. -/
def TableFits (counts : List UInt8) (mainIxLen : Nat) : Prop :=
  (0 < numCodes counts ∧ numCodes counts ≤ 256) ∧
    ∀ c ∈ (huffsize counts).zip
        (huffcode 0 ((huffsize counts).headD 0) (huffsize counts)),
      c.1 ≤ mainIxLen → (c.2 + 1) <<< (mainIxLen - c.1) ≤ 2 ^ mainIxLen

instance (counts : List UInt8) (mainIxLen : Nat) : Decidable (TableFits counts mainIxLen) :=
  inferInstanceAs (Decidable (_ ∧ _))

/-- `huff_define_table`, with the accesses of `calc_table`. -/
def huffDefineTable (ac : Bool) (id : Nat) (counts values : List UInt8) : Parser Unit := do
  let mainIxLen := if ac then acTblIndexLen else dcTblIndexLen
  checkIndex id 4
  if TableFits counts mainIxLen then
    modify fun g =>
      if ac then
        { g with acTbls := fun i => if i = id then some (calcTable counts values mainIxLen)
            else g.acTbls i }
      else
        { g with dcTbls := fun i => if i = id then some (calcTable counts values mainIxLen)
            else g.dcTbls i }
  else fault

def parseAppJfif : Parser Unit := do
  let len ← readUint buf
  let byt ← readByte buf
  if ¬ (len = 16 ∧ (byt = 0x4a ∨ byt = 0x6a)) then readSkipForward (uintSub len 3)
  else
    readSkipForward 6
    let byt ← readByte buf
    let hDpi ← readUint buf
    let vDpi ← readUint buf
    readSkipForward 2
    if byt = 1 then
      modify fun g => { g with
        traits := { g.traits with lHorizDPI := hDpi * 65536, lVertDPI := vDpi * 65536 } }
    else pure ()

def parseAppG3fax : Parser Unit := do
  let len ← readUint buf
  if len ≠ 12 then readSkipForward (uintSub len 2)
  else
    let idVer ← readBytes buf 8
    let dpi ← readUint buf
    if idVer = [0x47, 0x33, 0x46, 0x41, 0x58, 0x00, 0x07, 0xca] ∧
        (dpi = 200 ∨ dpi = 300 ∨ dpi = 400) then
      modify fun g => { g with
        traits := { g.traits with lHorizDPI := dpi * 65536, lVertDPI := dpi * 65536 }
        fColorFax := true }
    else pure ()

def shortHeaderTables (fDenali : Bool) : Parser Unit := do
  huffDefineTable false 0 lumDCCounts lumDCValues
  huffDefineTable true 0 (if fDenali then lumACCountsDenali else lumACCounts) lumACValues
  huffDefineTable false 1 chromDCCounts chromDCValues
  huffDefineTable true 1 chromACCounts chromACValues

def parseAppShortHeader : Parser Unit := do
  modify fun g => { g with
    restartInterval := 0
    whichQuantTbl := ((g.whichQuantTbl.set 0 0).set 1 1).set 2 1
    whichDcTbl := ((g.whichDcTbl.set 0 0).set 1 1).set 2 1
    whichAcTbl := ((g.whichAcTbl.set 0 0).set 1 1).set 2 1 }
  let g ← get
  shortHeaderTables g.fDenali
  let len ← readUint buf
  if len ≠ 18 then giveUp .badMarkerData
  else
    let lNumRows ← readUint buf
    let iPixelsPerRow ← readUint buf
    let hDpi ← readUint buf
    let vDpi ← readUint buf
    let acQFac ← readByte buf
    let numComps ← readByte buf
    let horiz ← readUint buf
    let vert ← readUint buf
    let dcQFac ← readByte buf
    let _reserved ← readByte buf
    let dcQFac := if dcQFac = 0 then acQFac else dcQFac
    modify fun g => { g with
      traits :=
        { lNumRows := if lNumRows = 0 then -1 else lNumRows
          iPixelsPerRow
          iComponentsPerPixel := numComps
          iBitsPerPixel := numComps * 8
          lHorizDPI := hDpi * 65536
          lVertDPI := vDpi * 65536 }
      numComps
      horizSampFacs := (parseFactors horiz).1
      maxHorizSampFac := (parseFactors horiz).2
      vertSampFacs := (parseFactors vert).1
      maxVertSampFac := (parseFactors vert).2
      quantTbls := fun i =>
        if i = 0 then some (calcQuantTable dcQFac acQFac origLumQuant)
        else if i = 1 then some (calcQuantTable dcQFac acQFac origChromQuant)
        else g.quantTbls i
      gotShortHeader := true }

def marParseApp (marker : Nat) : Parser Unit := do
  let len ← readUint buf
  if len ≤ 5 then readSkipForward (uintSub len 2)
  else
    let id1 ← readByte buf
    let id2 ← readByte buf
    let id3 ← readByte buf
    readSkipBackward 5
    if marker = 0xe1 ∧ id1 = 0x47 ∧ id2 = 0x33 ∧ id3 = 0x46 then parseAppG3fax buf
    else if marker = 0xe0 ∧ (id1 = 0x4a ∨ id1 = 0x6a) ∧ (id2 = 0x46 ∨ id2 = 0x66) ∧
        (id3 = 0x49 ∨ id3 = 0x69) then parseAppJfif buf
    else if marker = 0xe1 ∧ len = 18 then parseAppShortHeader buf
    else readSkipForward len

/-- `mar_flush`, for a marker with a segment. -/
def marFlush : Parser Unit := do
  let len ← readUint buf
  readSkipForward (uintSub len 2)

/-- The components of `mar_parse_sof`. -/
def sofComps : Nat → Nat → Parser Unit
  | 0, _ => pure ()
  | n + 1, comp => do
    let _compId ← readByte buf
    let hvSamp ← readByte buf
    let qTable ← readByte buf
    checkIndex comp 4
    modify fun g => { g with
      horizSampFacs := g.horizSampFacs.set comp (hvSamp / 16)
      vertSampFacs := g.vertSampFacs.set comp (hvSamp % 16)
      whichQuantTbl := g.whichQuantTbl.set comp qTable
      maxHorizSampFac := max g.maxHorizSampFac (hvSamp / 16)
      maxVertSampFac := max g.maxVertSampFac (hvSamp % 16) }
    sofComps n (comp + 1)

def marParseSof (marker : Nat) : Parser Unit := do
  let len ← readUint buf
  let uBitsPerComp ← readByte buf
  modify fun g => { g with rowCountOffset := g.next }
  let lNumRows ← readUint buf
  let iPixelsPerRow ← readUint buf
  let numComps ← readByte buf
  modify fun g => { g with
    traits := { g.traits with
      lNumRows := if lNumRows = 0 then -1 else lNumRows
      iPixelsPerRow
      iComponentsPerPixel := numComps
      iBitsPerPixel := numComps * uBitsPerComp }
    numComps }
  if len ≠ 8 + 3 * numComps ∨ numComps = 0 then giveUp .badMarkerData
  else if (marker ≠ 0xc0 ∧ marker ≠ 0xc1) ∨ uBitsPerComp ≠ 8 ∨ 4 < numComps then
    giveUp .notImplemented
  else
    modify fun g => { g with maxHorizSampFac := 1, maxVertSampFac := 1 }
    sofComps buf numComps 0

/-- The loop of `mar_parse_dqt`. -/
def dqtLoop (len : Nat) : Parser Unit :=
  if 65 ≤ len then do
    let pt ← readByte buf
    if pt / 4 ≠ 0 then giveUp .notImplemented
    else
      let tbl ← readBytes buf 64
      modify fun g => { g with
        quantTbls := fun i => if i = pt % 4 then some (tbl.map UInt8.toNat) else g.quantTbls i }
      dqtLoop (len - 65)
  else if len ≠ 0 then giveUp .badMarkerData
  else pure ()
termination_by len

/-- `mar_parse_dqt`: a negative length ends in the error, too. -/
def marParseDqt : Parser Unit := do
  let len ← readUint buf
  if len < 2 then giveUp .badMarkerData else dqtLoop buf (len - 2)

/-- The loop of `mar_parse_dht`; `values` has 256 elements. -/
def dhtLoop (len : Nat) : Parser Unit :=
  if 17 < len then do
    let classId ← readByte buf
    let numCodesOf ← readBytes buf 16
    let totCodes := numCodes numCodesOf
    if len - 17 < totCodes then giveUp .badMarkerData
    else
      let values ← readBytes buf totCodes
      if 256 < totCodes then fault
      else
        huffDefineTable (classId / 16 ≠ 0) (classId % 16) numCodesOf values
        dhtLoop (len - 17 - totCodes)
  else if len ≠ 0 then giveUp .badMarkerData
  else pure ()
termination_by len

def marParseDht : Parser Unit := do
  let len ← readUint buf
  if len < 2 then giveUp .badMarkerData else dhtLoop buf (len - 2)

def marParseDri : Parser Unit := do
  let len ← readUint buf
  if len ≠ 4 then giveUp .badMarkerData
  else
    let restartInterval ← readUint buf
    modify fun g => { g with restartInterval }

/-- The components of `mar_parse_sos`. -/
def sosComps : Nat → Nat → Parser Unit
  | 0, _ => pure ()
  | n + 1, comp => do
    let _cs ← readByte buf
    let dcAc ← readByte buf
    checkIndex comp 4
    modify fun g => { g with
      whichDcTbl := g.whichDcTbl.set comp (dcAc / 16)
      whichAcTbl := g.whichAcTbl.set comp (dcAc % 16) }
    sosComps n (comp + 1)

def marParseSos : Parser Unit := do
  let len ← readUint buf
  let g ← get
  if len ≠ 6 + 2 * g.numComps then giveUp .badMarkerData
  else
    let _ns ← readByte buf
    sosComps buf g.numComps 0
    let _rest ← readBytes buf 3

def marParseDnl : Parser Unit := do
  let len ← readUint buf
  let nRows ← readUint buf
  if len ≠ 4 ∨ nRows = 0 then giveUp .badMarkerData
  else modify fun g => { g with traits := { g.traits with lNumRows := nRows } }

/-- Markers with a segment that `mar_parse` discards: COM and the JPG markers. -/
def IsFlushed (marker : Nat) : Prop := 0xf0 ≤ marker ∧ marker ≤ 0xfe

def IsSof (marker : Nat) : Prop :=
  0xc0 ≤ marker ∧ marker ≤ 0xcf ∧ marker ≠ 0xc4 ∧ marker ≠ 0xcc

instance (marker : Nat) : Decidable (IsFlushed marker) := inferInstanceAs (Decidable (_ ∧ _))

instance (marker : Nat) : Decidable (IsSof marker) := inferInstanceAs (Decidable (_ ∧ _))

def marParse (marker : Nat) : Parser Unit :=
  if 0xe0 ≤ marker ∧ marker ≤ 0xef then marParseApp buf marker
  else if IsFlushed marker then marFlush buf
  else if IsSof marker then marParseSof buf marker
  else if 0xd0 ≤ marker ∧ marker ≤ 0xd7 then pure ()
  else if marker = 0xc4 then marParseDht buf
  else if marker = 0xdb then marParseDqt buf
  else if marker = 0xdd then marParseDri buf
  else if marker = 0xda then marParseSos buf
  else if marker = 0xdc then marParseDnl buf
  else if marker = 0xcc ∨ marker = 0xde ∨ marker = 0xdf then giveUp .notImplemented
  else if marker = 0xd8 ∨ marker = 0xd9 then pure ()
  else giveUp .badMarkerData

/-! ## The call -/

def headerStep : Parser Bool := do
  let marker ← marGet buf
  marParse buf marker
  if marker = 0xd9 then giveUp .inputError
  else
    let g ← get
    return !(marker = 0xda ∨ g.gotShortHeader)

def headerLoop : Nat → Parser Unit
  | 0 => fault
  | rounds + 1 => do
    let more ← headerStep buf
    if more then headerLoop rounds else pure ()

/-- The rows of the components in `out_rows_ap`. -/
def allocRows : Nat → Nat → Parser Unit
  | 0, _ => pure ()
  | n + 1, comp => do
    checkIndex comp 4
    let g ← get
    if 32 < 8 * g.vertSampFacs.getD comp 0 then fault else allocRows n (comp + 1)

/-- `jpgDecode_getActualTraits` -/
@[irreducible] def getActualTraits : Parser Unit := do
  modify fun g => { g with
    next := 0, gotShortHeader := false, dcTbls := fun _ => none, acTbls := fun _ => none }
  let soi ← marGet buf
  if soi ≠ 0xd8 then giveUp .inputError
  else
    headerLoop buf (buf.length + 1)
    modify fun g => { g with
      colsPerMcu := g.maxHorizSampFac * 8, rowsPerMcu := g.maxVertSampFac * 8 }
    let g ← get
    if g.colsPerMcu = 0 then fault
    else
      modify fun g => { g with
        mcusPerRow := (g.traits.iPixelsPerRow + g.colsPerMcu - 1) / g.colsPerMcu }
      allocRows g.numComps 0

end

end Hplip.Ip.JpegHdr
