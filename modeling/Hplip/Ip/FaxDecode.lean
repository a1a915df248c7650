import Mathlib
import Hplip.Ip.FaxEncode

/-!
# The fax decoder (xfax.c, second half)

The decoder fetches codes from a 32-bit cache that it refills from the input buffer. It can
stop in the middle of a row for want of input, and goes on in the next call from what its
instance holds.

The tables that turn the next bits into a code are constant over long stretches and are
given by those. What the source calls `got_black` has no effect (`NONWHITE_ROW` and
`WHITE_ROW` are both 0) and is left out, as is `no_eols`, which is never read.
-/

namespace Hplip.Ip

/-! ## Tables -/

def faxWhiteHuff : List Nat :=
  [0x0000, 0x4002, 0x4003, 0x4004, 0x4005, 0x4006, 0x4007, 0x500a, 0x500b, 0x5080, 0x5008,
   0x5009, 0x5040, 0x600d, 0x6001, 0x600c, 0x60c0, 0x6680, 0x6010, 0x6011, 0x600e, 0x600f,
   0x7016, 0x7017, 0x7014, 0x7013, 0x701a, 0x7015, 0x701c, 0x701b, 0x7012, 0x7018, 0x7019,
   0x7100, 0x801d, 0x801e, 0x802d, 0x802e, 0x802f, 0x8030, 0x8021, 0x8022, 0x8023, 0x8024,
   0x8025, 0x8026, 0x801f, 0x8020, 0x8035, 0x8036, 0x8027, 0x8028, 0x8029, 0x802a, 0x802b,
   0x802c, 0x803d, 0x803e, 0x803f, 0x8000, 0x8140, 0x8180, 0x803b, 0x803c, 0x8031, 0x8032,
   0x8033, 0x8034, 0x8037, 0x8038, 0x8039, 0x803a, 0x81c0, 0x8200, 0x8280, 0x8240, 0x95c0,
   0x9600, 0x9640, 0x96c0, 0x92c0, 0x9300, 0x9340, 0x9380, 0x93c0, 0x9400, 0x9440, 0x9480,
   0x94c0, 0x9500, 0x9540, 0x9580, 0xb700, 0xb740, 0xb780, 0xc7c0, 0xc800, 0xc840, 0xc880,
   0xc8c0, 0xc900, 0xc940, 0xc980, 0xc9c0, 0xca00]

/-- `fax_white_huff_index`, by its constant stretches: their lengths and indices. -/
def faxWhiteHuffIndex : List (Nat × Nat) :=
  [(16, 0), (2, 92), (1, 95), (1, 96), (1, 97), (1, 98), (1, 99), (1, 100), (2, 93),
   (2, 94), (1, 101), (1, 102), (1, 103), (1, 104), (16, 34), (16, 35), (16, 36), (16, 37),
   (32, 22), (32, 23), (16, 38), (16, 39), (64, 13), (32, 24), (16, 40), (16, 41), (16, 42),
   (16, 43), (16, 44), (16, 45), (32, 25), (16, 46), (16, 47), (64, 14), (64, 15), (16, 48),
   (16, 49), (32, 26), (16, 50), (16, 51), (16, 52), (16, 53), (16, 54), (16, 55), (32, 27),
   (32, 28), (16, 56), (16, 57), (16, 58), (16, 59), (16, 60), (16, 61), (128, 7), (128, 8),
   (32, 29), (16, 62), (16, 63), (8, 76), (8, 77), (8, 78), (8, 79), (32, 30), (32, 31),
   (16, 64), (16, 65), (16, 66), (16, 67), (32, 32), (16, 68), (16, 69), (16, 70), (16, 71),
   (64, 16), (64, 17), (16, 72), (16, 73), (8, 80), (8, 81), (16, 74), (16, 75), (8, 82),
   (8, 83), (8, 84), (8, 85), (8, 86), (8, 87), (8, 88), (8, 89), (8, 90), (8, 91),
   (32, 33), (256, 1), (256, 2), (128, 9), (128, 10), (128, 11), (64, 18), (64, 19),
   (256, 3), (256, 4), (64, 20), (64, 21), (128, 12), (256, 5), (256, 6)]

def faxBlackHuff : List Nat :=
  [0x0000, 0x2003, 0x2002, 0x3001, 0x3004, 0x4006, 0x4005, 0x5007, 0x6009, 0x6008, 0x700a,
   0x700b, 0x700c, 0x800d, 0x800e, 0x900f, 0xa012, 0xa040, 0xa010, 0xa011, 0xa000, 0xb700,
   0xb740, 0xb780, 0xb018, 0xb019, 0xb017, 0xb016, 0xb013, 0xb014, 0xb015, 0xc7c0, 0xc800,
   0xc840, 0xc880, 0xc8c0, 0xc900, 0xc940, 0xc980, 0xc9c0, 0xca00, 0xc034, 0xc037, 0xc038,
   0xc03b, 0xc03c, 0xc140, 0xc180, 0xc1c0, 0xc035, 0xc036, 0xc032, 0xc033, 0xc02c, 0xc02d,
   0xc02e, 0xc02f, 0xc039, 0xc03a, 0xc03d, 0xc100, 0xc030, 0xc031, 0xc03e, 0xc03f, 0xc01e,
   0xc01f, 0xc020, 0xc021, 0xc028, 0xc029, 0xc080, 0xc0c0, 0xc01a, 0xc01b, 0xc01c, 0xc01d,
   0xc022, 0xc023, 0xc024, 0xc025, 0xc026, 0xc027, 0xc02a, 0xc02b, 0xd280, 0xd2c0, 0xd300,
   0xd340, 0xd500, 0xd540, 0xd580, 0xd5c0, 0xd600, 0xd640, 0xd680, 0xd6c0, 0xd200, 0xd240,
   0xd380, 0xd3c0, 0xd400, 0xd440, 0xd480, 0xd4c0]

/-- `fax_black_huff_index`, by its constant stretches. -/
def faxBlackHuffIndex : List (Nat × Nat) :=
  [(32, 0), (4, 21), (2, 31), (2, 32), (2, 33), (2, 34), (2, 35), (2, 36), (4, 22), (4, 23),
   (2, 37), (2, 38), (2, 39), (2, 40), (8, 16), (2, 41), (1, 85), (1, 86), (1, 87), (1, 88),
   (2, 42), (2, 43), (1, 89), (1, 90), (1, 91), (1, 92), (2, 44), (2, 45), (1, 93), (1, 94),
   (4, 24), (4, 25), (1, 95), (1, 96), (2, 46), (2, 47), (2, 48), (1, 97), (1, 98), (2, 49),
   (2, 50), (1, 99), (1, 100), (1, 101), (1, 102), (1, 103), (1, 104), (8, 17), (32, 13),
   (4, 26), (2, 51), (2, 52), (2, 53), (2, 54), (2, 55), (2, 56), (2, 57), (2, 58), (2, 59),
   (2, 60), (8, 18), (8, 19), (2, 61), (2, 62), (2, 63), (2, 64), (2, 65), (2, 66), (2, 67),
   (2, 68), (2, 69), (2, 70), (4, 27), (32, 14), (64, 10), (64, 11), (16, 15), (2, 71),
   (2, 72), (2, 73), (2, 74), (2, 75), (2, 76), (4, 28), (4, 29), (2, 77), (2, 78), (2, 79),
   (2, 80), (2, 81), (2, 82), (4, 30), (2, 83), (2, 84), (8, 20), (64, 12), (128, 8),
   (128, 9), (256, 7), (512, 5), (512, 6), (1024, 3), (1024, 4), (2048, 1), (2048, 2)]

def faxVertHuff : List Nat :=
  [0x0000, 0x1003, 0x3008, 0x3002, 0x3004, 0x4007, 0x6001, 0x6005, 0x7000, 0x7006]

/-- `fax_vert_huff_index`, by its constant stretches. -/
def faxVertHuffIndex : List (Nat × Nat) :=
  [(2, 0), (1, 8), (1, 9), (2, 6), (2, 7), (8, 5), (16, 2), (16, 3), (16, 4), (64, 1)]

/-- A pair of tables: the length of an index, the values by their stretches, the values. -/
structure HuffTable where
  bitsInIndex : Nat
  indexTbl : List (Nat × Nat)
  valueTbl : List Nat

def whiteTable : HuffTable := ⟨12, faxWhiteHuffIndex, faxWhiteHuff⟩

def blackTable : HuffTable := ⟨13, faxBlackHuffIndex, faxBlackHuff⟩

def vertTable : HuffTable := ⟨7, faxVertHuffIndex, faxVertHuff⟩

/-- The entry at `i` of a table that is given by its constant stretches. -/
def stretchAt : List (Nat × Nat) → Nat → Nat
  | [], _ => 0
  | (len, x) :: rest, i => if i < len then x else stretchAt rest (i - len)

/-- `value_tbl[index_tbl[blob]]`. -/
def HuffTable.values (tbl : HuffTable) (blob : Nat) : Nat :=
  tbl.valueTbl[stretchAt tbl.indexTbl blob]!

/-! ## Fetching bits -/

/-- The variables for getting bits. The bytes from `gb_byte_p` to `gb_buf_after_p` are
`unread`. -/
structure Gb where
  unread : List UInt8
  cacheCnt : Nat
  cache : Nat
  numZeroes : Nat
  deriving DecidableEq

/-- `BITS_REFILL_CACHE`. -/
def refillCache (cacheCnt cache : Nat) : List UInt8 → List UInt8 × Nat × Nat
  | [] => ([], cacheCnt, cache)
  | byte :: rest =>
    if cacheCnt ≤ 24 then
      refillCache (cacheCnt + 8) ((cache <<< 8 ||| byte.toNat) % 2 ^ 32) rest
    else (byte :: rest, cacheCnt, cache)

def Gb.refill (b : Gb) : Gb :=
  let (unread, cacheCnt, cache) := refillCache b.cacheCnt b.cache b.unread
  { b with unread, cacheCnt, cache }

/-- `BITS_LOAD`. -/
def Gb.load (b : Gb) (numBits : Nat) : Except Fault Nat :=
  if b.cacheCnt < numBits then .error (.bitsLoad numBits)
  else .ok ((b.cache >>> (b.cacheCnt - numBits)) % 2 ^ numBits)

/-- `BITS_ADVANCE`. -/
def Gb.advance (b : Gb) (numBits : Nat) : Gb := { b with cacheCnt := b.cacheCnt - numBits }

/-- `bits_flush`. -/
def Gb.flush (b : Gb) : Gb := { b with cacheCnt := 0, unread := [] }

/-- `baRightZeroesTbl`: the number of trailing zeroes in a byte. -/
def baRightZeroesTbl (b : UInt8) : Nat :=
  if b = 0 then 8
  else if b &&& 0x7F = 0 then 7
  else if b &&& 0x3F = 0 then 6
  else if b &&& 0x1F = 0 then 5
  else if b &&& 0x0F = 0 then 4
  else if b &&& 0x07 = 0 then 3
  else if b &&& 0x03 = 0 then 2
  else if b &&& 0x01 = 0 then 1
  else 0

/-- The loop of `bits_flush_to_eol` over the cache: it counts zeroes up to 11. -/
def countCache (cache : Nat) : Nat → Nat → Nat × Nat
  | 0, numZeroes => (0, numZeroes)
  | cnt + 1, numZeroes =>
    if cache.testBit cnt then countCache cache cnt 0
    else if 11 ≤ numZeroes + 1 then (cnt, numZeroes + 1)
    else countCache cache cnt (numZeroes + 1)

/-- The loop of `bits_flush_to_eol` over bytes. It leaves the byte that brings the zeroes to
11, and answers whether there was one. -/
def countBytes : List UInt8 → Nat → Bool × List UInt8 × Nat
  | [], numZeroes => (false, [], numZeroes)
  | byt :: rest, numZeroes =>
    let numZeroes := numZeroes + baLeftZeroesTbl byt
    if 11 ≤ numZeroes then (true, byt :: rest, numZeroes)
    else countBytes rest (if byt ≠ 0 then baRightZeroesTbl byt else numZeroes)

/-- The first part of `bits_flush_to_eol`: scan input until 11 zeroes have been seen. -/
def Gb.countZeroes (b : Gb) : Bool × Gb :=
  let (cacheCnt, numZeroes) := countCache b.cache b.cacheCnt b.numZeroes
  let (found, unread, numZeroes) := countBytes b.unread numZeroes
  (found, { b with unread, cacheCnt, numZeroes })

def dropZeroes (cache : Nat) : Nat → Nat
  | 0 => 0
  | cnt + 1 => if cache.testBit cnt then cnt + 1 else dropZeroes cache cnt

/-- The second part of `bits_flush_to_eol`: scan input until a non-zero bit is seen, for at
most so many rounds. -/
def Gb.scanToOne (leaveABit : Bool) : Nat → Gb → Except Fault (Bool × Gb)
  | 0, _ => .error .rounds
  | rounds + 1, b =>
    let b := b.refill
    if b.cacheCnt = 0 ∨ (leaveABit ∧ b.cacheCnt = 1) then .ok (false, b)
    else
      -- clear unused cache bits
      let b := { b with cache := if b.cacheCnt < 32 then b.cache % 2 ^ b.cacheCnt else b.cache }
      let b := { b with cacheCnt := if b.cache = 0 then 0 else dropZeroes b.cache b.cacheCnt }
      if b.cache ≠ 0 ∧ (¬ leaveABit ∨ 2 ≤ b.cacheCnt) then
        .ok (true, { b with cacheCnt := b.cacheCnt - 1, numZeroes := 0 })
      else
        -- discard zero bytes
        let unread := if b.cacheCnt = 0 then b.unread.dropWhile (· = 0) else b.unread
        Gb.scanToOne leaveABit rounds { b with unread }

def bitsFlushToEol (b : Gb) (gotFill leaveABit : Bool) : Except Fault (Bool × Gb) :=
  if gotFill ∨ 11 ≤ b.numZeroes then b.scanToOne leaveABit (b.unread.length + 2)
  else
    match b.countZeroes with
    | (false, b) => .ok (false, b)
    | (true, b) => b.scanToOne leaveABit (b.unread.length + 2)

/-! ## Parsing codes -/

/-- The results of `parse_code_routine`. -/
inductive Code
  | gotCode (value : Nat)
  | badCode
  | fill
  | hitEol
  | needMore
  deriving DecidableEq, Repr

def parseCodeRoutine (b : Gb) (tbl : HuffTable) : Except Fault (Code × Gb) := do
  let b := b.refill
  if b.cacheCnt < tbl.bitsInIndex then .ok (.needMore, b)
  else do
    let values := tbl.values (← b.load tbl.bitsInIndex)
    if values ≠ 0 then
      -- normal case: we got a valid code
      .ok (.gotCode (values % 2 ^ 12), b.advance (values / 2 ^ 12))
    else if b.cacheCnt < 13 then .ok (.needMore, b)
    else do
      let blob ← b.load 12
      if blob = 1 then .ok (.hitEol, b.advance 12)
      else if blob = 0 then .ok (.fill, b.advance 12)
      else .ok (.badCode, b)

def parseCode (b : Gb) (tbl : HuffTable) : Except Fault (Code × Gb) :=
  if b.cacheCnt < tbl.bitsInIndex then parseCodeRoutine b tbl
  else do
    let values := tbl.values (← b.load tbl.bitsInIndex)
    if values = 0 then parseCodeRoutine b tbl
    else .ok (.gotCode (values % 2 ^ 12), b.advance (values / 2 ^ 12))

/-! ## Black runs -/

/-- `runs_array`, whose entries are 16 pixels in the order of memory: `left` to `right` set. -/
def runsArray (left right : Nat) : UInt8 × UInt8 :=
  let run := if left ≤ right then (0xFFFF >>> left) &&& (0xFFFF <<< (15 - right)) else 0
  (UInt8.ofNat (run >>> 8), UInt8.ofNat run)

/-- `set_run`. The row may be written up to its slack byte. -/
def setRun (buf : List UInt8) (startPos runLen : Int) (rowLen : Nat) :
    Except Fault (List UInt8) :=
  let endPos : Int := int32 (startPos + runLen - 1)
  let endPos : Int := if (rowLen : Int) ≤ endPos then rowLen - 1 else endPos
  let startIndex : Int := startPos / 16
  if startPos < 0 then .error (.setRun startPos runLen)
  else if endPos / 16 = startIndex then
    -- the run is contained within an even-aligned 2-byte word
    let i := (2 * startIndex).toNat
    let (first, second) := runsArray (startPos % 16).toNat (endPos % 16).toNat
    if (rowLen + 7) / 8 < i + 1 then .error (.setRun startPos runLen)
    else do
      let buf ← store buf i (buf.getD i 0 ||| first)
      store buf (i + 1) (buf.getD (i + 1) 0 ||| second)
  else if startPos < endPos then do
    -- the run spans two or more bytes
    let left := (startPos / 8).toNat
    let right := (endPos / 8).toNat
    if (rowLen + 7) / 8 < right then .error (.setRun startPos runLen)
    else do
      let buf ← store buf left (buf.getD left 0 ||| 0xFF >>> UInt8.ofNat (startPos % 8).toNat)
      let buf ← store buf right (0xFF <<< UInt8.ofNat (7 - (endPos % 8).toNat))
      .ok (buf.take (left + 1) ++ List.replicate (right - (left + 1)) 0xFF ++ buf.drop right)
  else .ok buf

/-! ## The instance -/

inductive State2d
  | normal2d
  | horiz1st
  | horiz2nd
  deriving DecidableEq, Repr

structure DecInst where
  dwInNextPos : UInt32
  dwOutNextPos : UInt32
  gb : Gb
  pixelPos : Int
  white : Bool
  state2d : State2d
  a0 : Int
  priorP : List UInt8
  refRowInvalid : Bool
  inputFormat : FaxFormat
  numEols : Nat
  tossEverything : Bool
  flushingToEol : Bool
  gotFill : Bool
  twoDim : Bool
  rowLen : Nat
  bytesInRow : Nat
  deriving DecidableEq

/-- The bits that the row-decoding functions return; none is set where more input is needed. -/
structure Ret where
  producedRow : Bool
  inputError : Bool
  hitEol : Bool
  hitFill : Bool
  deriving DecidableEq, Repr

def Ret.zero : Ret := ⟨false, false, false, false⟩

def decodeRowInit (g : DecInst) : DecInst :=
  { g with pixelPos := 0, white := true, state2d := .normal2d, a0 := -1 }

def runTable (white : Bool) : HuffTable := if white then whiteTable else blackTable

/-- `set_run` where a black run is being done. -/
def setRunIf (g : DecInst) (out : List UInt8) (startPos runLen : Int) :
    Except Fault (List UInt8) :=
  if g.white then .ok out else setRun out startPos runLen g.rowLen

/-- `memset (pbOutBuf, 0, g->bytes_in_row)`. -/
def whiteRow (g : DecInst) (out : List UInt8) : List UInt8 :=
  copyRow out (List.replicate g.bytesInRow 0) g.bytesInRow

/-- `memcpy (pbOutBuf, pbPrevOutBuf, g->bytes_in_row)`. -/
def repeatRow (g : DecInst) (out : List UInt8) : List UInt8 := copyRow out g.priorP g.bytesInRow

/-! ## One-dimensional rows -/

/-- What `decode_row_1d` does with a run. -/
def decodeRun1d (g : DecInst) (out : List UInt8) (runLen : Nat) :
    Except Fault (DecInst × List UInt8) := do
  let out ← setRunIf g out g.pixelPos runLen
  .ok ({ g with
    pixelPos := int32 (g.pixelPos + runLen)
    -- a final run (not a make-up) changes the colour
    white := if runLen ≤ 63 then !g.white else g.white }, out)

/-- What `decode_row_1d` does in an unusual condition. -/
def unusual1d (g : DecInst) (out : List UInt8) : Code → Ret × DecInst × List UInt8
  | .gotCode _ => (.zero, g, out)
  | .needMore => (.zero, g, out)
  | .badCode => (⟨true, true, false, false⟩, g, repeatRow g out)
  | .fill => atEol g out ⟨false, false, false, true⟩
  | .hitEol => atEol g out ⟨false, false, true, false⟩
where
  atEol (g : DecInst) (out : List UInt8) (ret : Ret) : Ret × DecInst × List UInt8 :=
    if g.pixelPos = 0 then (ret, g, out)
    else if g.pixelPos = g.rowLen then
      ({ ret with producedRow := true }, { g with refRowInvalid := false }, out)
    else ({ ret with producedRow := true, inputError := true }, g, repeatRow g out)

/-- The loop of `decode_row_1d`, for at most so many rounds. -/
def decodeRuns : Nat → DecInst → List UInt8 → Except Fault (Ret × DecInst × List UInt8)
  | 0, _, _ => .error .rounds
  | rounds + 1, g, out => do
    let (code, gb) ← parseCode g.gb (runTable g.white)
    match code with
    | .gotCode runLen => do
      let (g, out) ← decodeRun1d { g with gb := gb } out runLen
      decodeRuns rounds g out
    | code => .ok (unusual1d { g with gb := gb } out code)

def Gb.rounds (b : Gb) : Nat := b.cacheCnt + 8 * b.unread.length + 1

def decodeRow1d (g : DecInst) (out : List UInt8) : Except Fault (Ret × DecInst × List UInt8) :=
  if g.pixelPos = 0 then
    -- set whole row to white
    decodeRuns g.gb.rounds { g with refRowInvalid := true } (whiteRow g out)
  else decodeRuns g.gb.rounds g out

/-! ## Two-dimensional rows -/

/-- The locals of `decode_row_2d` that do not outlive a call, and the output. -/
structure Decoding where
  g : DecInst
  b1 : Int
  needB0 : Bool
  out : List UInt8
  deriving DecidableEq

/-- The search for `b1` in normal state. -/
def findB1 (s : Decoding) : Except Fault Decoding :=
  let g := s.g
  if g.a0 < 0 then do
    let b1 ← scanTo (!g.white) g.priorP 0 g.rowLen
    .ok { s with g := { g with a0 := 0 }, b1 := b1 }
  else if s.needB0 then do
    let b0 ← scanTo g.white g.priorP g.a0 g.rowLen
    let b1 ← scanTo (!g.white) g.priorP (b0 + 1 : Nat) g.rowLen
    .ok { s with b1 := b1 }
  else do
    let b1 ← scanTo (!g.white) g.priorP (s.b1 + 1) g.rowLen
    .ok { s with b1 := b1 }

/-- Vertical mode; `false` is a jump to `corrupt`. -/
def verticalMode (s : Decoding) (iAction : Int) : Except Fault (Bool × Decoding) := do
  let g := s.g
  let a1 := s.b1 + iAction
  let needB0 := decide (iAction < -1) || decide (0 < iAction)
  let out ← setRunIf g s.out g.a0 (a1 - g.a0)
  if a1 < g.a0 ∨ (g.rowLen : Int) < a1 then .ok (false, { s with needB0, out })
  else .ok (true, { s with g := { g with a0 := a1, white := !g.white }, needB0, out })

def passMode (s : Decoding) : Except Fault Decoding := do
  let g := s.g
  let b2 ← scanTo g.white g.priorP (s.b1 + 1) g.rowLen
  let out ← setRunIf g s.out g.a0 (b2 - g.a0)
  .ok ⟨{ g with a0 := b2 }, b2, false, out⟩

/-- A code in normal state; `false` is a jump to `corrupt`. -/
def normalCode (s : Decoding) (iAction : Nat) : Except Fault (Bool × Decoding) :=
  if iAction = 8 then .ok (true, { s with g := { s.g with state2d := .horiz1st } })
  else do
    let s ← findB1 s
    if iAction ≤ 6 then verticalMode s ((iAction : Int) - 3)
    else do
      let s ← passMode s
      .ok (true, s)

/-- A code in horizontal mode; `false` is a jump to `corrupt`. -/
def horizCode (s : Decoding) (runLen : Nat) : Except Fault (Bool × Decoding) := do
  -- Exception: See Fascicle VII.3, rec T.4, section 4.2.1.3.4
  let g := if s.g.a0 < 0 then { s.g with a0 := 0 } else s.g
  let out ← setRunIf g s.out g.a0 runLen
  let g := { g with a0 := int32 (g.a0 + runLen) }
  if 63 < runLen then .ok (true, { s with g, out })
  else
    match g.state2d with
    | .horiz1st =>
      .ok (true, { s with g := { g with white := !g.white, state2d := .horiz2nd }, out })
    | _ =>
      let g := { g with white := !g.white, state2d := .normal2d }
      .ok (decide (g.a0 ≤ g.rowLen), { s with g, needB0 := true, out })

/-- What `decode_row_2d` does in an unusual condition. -/
def unusual2d (g : DecInst) (out : List UInt8) : Code → Ret × DecInst × List UInt8
  | .gotCode _ => (.zero, g, out)
  | .needMore => (.zero, g, out)
  | .badCode =>
    (⟨true, true, false, false⟩, { g with state2d := .normal2d, refRowInvalid := true },
      repeatRow g out)
  | .fill => atEol { g with state2d := .normal2d } out ⟨false, false, false, true⟩
  | .hitEol => atEol { g with state2d := .normal2d } out ⟨false, false, true, false⟩
where
  atEol (g : DecInst) (out : List UInt8) (ret : Ret) : Ret × DecInst × List UInt8 :=
    match g.inputFormat with
    | .mmr => ({ ret with inputError := decide (0 ≤ g.a0) }, g, out)
    | _ =>
      if ¬ g.refRowInvalid ∧ g.a0 = g.rowLen then ({ ret with producedRow := true }, g, out)
      else if 0 ≤ g.a0 then
        ({ ret with producedRow := true, inputError := true }, { g with refRowInvalid := true },
          repeatRow g out)
      else (ret, g, out)

/-- The table for the next code, unless the row is complete: a row of MMR data has no EOL. -/
def nextTable (g : DecInst) : Ret ⊕ HuffTable :=
  match g.state2d with
  | .normal2d =>
    if (g.rowLen : Int) ≤ g.a0 ∧ g.inputFormat = .mmr then
      .inl (if g.a0 = g.rowLen then ⟨true, false, false, false⟩ else ⟨false, true, false, false⟩)
    else .inr vertTable
  | _ => .inr (runTable g.white)

/-- A code of `decode_row_2d`; `false` is a jump to `corrupt`. -/
def decodeCode2d (s : Decoding) (value : Nat) : Except Fault (Bool × Decoding) :=
  match s.g.state2d with
  | .normal2d => normalCode s value
  | _ => horizCode s value

/-- The loops of `decode_row_2d`, for at most so many rounds. -/
def decodeModes : Nat → Decoding → Except Fault (Ret × DecInst × List UInt8)
  | 0, _ => .error .rounds
  | rounds + 1, s =>
    match nextTable s.g with
    | .inl ret => .ok (ret, s.g, s.out)
    | .inr tbl => do
      let (code, gb) ← parseCode s.g.gb tbl
      let s := { s with g := { s.g with gb := gb } }
      match code with
      | .gotCode value => do
        let (good, s) ← decodeCode2d s value
        if good then decodeModes rounds s else .ok (unusual2d s.g s.out .badCode)
      | code => .ok (unusual2d s.g s.out code)

def decodeRow2d (g : DecInst) (out : List UInt8) : Except Fault (Ret × DecInst × List UInt8) :=
  if g.a0 < 0 then do
    -- set whole row to white; scan_to requires the sentinel
    let prior ← store g.priorP g.bytesInRow 0x55
    decodeModes g.gb.rounds ⟨{ g with priorP := prior }, 0, true, whiteRow g out⟩
  else decodeModes g.gb.rounds ⟨g, 0, true, out⟩

/-! ## The transform -/

/-- `faxDecode_openXform` and `faxDecode_setXformSpec`. -/
def faxDecodeOpenXform (inputFormat : FaxFormat) : DecInst :=
  decodeRowInit
    ⟨0, 0, ⟨[], 0, 0, 0⟩, 0, false, .normal2d, 0, [], false, inputFormat, 0, false, false, false,
      false, 0, 0⟩

/-- `faxDecode_getActualTraits` for rows of so many pixels. The allocation of a negative
number of bytes fails. -/
def faxDecodeGetActualTraits (g : DecInst) (iPixelsPerRow : Nat) (allowance : List UInt8) :
    Called DecInst :=
  if int32 (iPixelsPerRow + 7) < 0 then .fatalError
  else
    let inBytes := (iPixelsPerRow + 7) / 8
    .returned
      { g with
        rowLen := iPixelsPerRow
        bytesInRow := inBytes
        twoDim := g.inputFormat = .mmr
        -- For MH and MR: Discard bits before the first EOL
        flushingToEol := g.inputFormat ≠ .mmr
        priorP := List.replicate inBytes 0 ++ allowance }

/-- What `faxDecode_convert` answers: the bits of its result other than `IP_READY_FOR_DATA` and
`IP_CONSUMED_ROW`, its out-parameters, and the output buffer after the call. -/
structure Decoded where
  done : Bool
  producedRow : Bool
  inputError : Bool
  newOutputPage : Bool
  inUsed : Nat
  inNextPos : UInt32
  outUsed : Nat
  outThisPos : UInt32
  outBuf : List UInt8
  xform : DecInst
  deriving DecidableEq

/-- After `IP_INPUT_ERROR`. -/
def afterError (g : DecInst) (ret : Ret) : DecInst :=
  if ret.inputError then
    match g.inputFormat with
    | .mmr => { g with gb := g.gb.flush, tossEverything := true }
    | _ => { g with flushingToEol := true, numEols := 0 }
  else g

/-- After `IP_PRODUCED_ROW`. -/
def afterRow (g : DecInst) (ret : Ret) (out : List UInt8) : DecInst :=
  if ret.producedRow then
    -- ignore all EOLs before the row
    { decodeRowInit { g with priorP := copyRow g.priorP out g.bytesInRow } with numEols := 0 }
  else g

/-- After `DECODE_HIT_FILL`. -/
def afterFill (g : DecInst) (ret : Ret) : DecInst :=
  if ret.hitFill then { g with flushingToEol := true, gotFill := true } else g

def readTag (g : DecInst) : Except Fault DecInst :=
  match g.inputFormat with
  | .mr => do
    let bit ← g.gb.load 1
    .ok { g with twoDim := bit = 0, gb := g.gb.advance 1 }
  | _ => .ok g

/-- `EOLS_FOR_MH_MR` and `EOLS_FOR_MMR`. -/
def eolsForPage : FaxFormat → Nat
  | .mmr => 1
  | _ => 3

/-- After `DECODE_HIT_EOL`; `true` is `IP_NEW_OUTPUT_PAGE`. -/
def afterEol (g : DecInst) (ret : Ret) : Except Fault (Bool × DecInst) :=
  if ret.hitEol then do
    let g ← readTag g
    let g := { decodeRowInit g with
      flushingToEol := false
      gotFill := false
      numEols := g.numEols + 1 }
    if eolsForPage g.inputFormat ≤ g.numEols then
      -- we hit end of page
      .ok (true, { g with numEols := 0, gb := g.gb.flush })
    else .ok (false, g)
  else .ok (false, g)

def decodeStep (g : DecInst) (out : List UInt8) : Except Fault (Ret × DecInst × List UInt8) :=
  if g.flushingToEol then do
    let (hit, gb) ← bitsFlushToEol g.gb g.gotFill (g.inputFormat = .mr)
    .ok (⟨false, false, hit, false⟩, { g with gb := gb }, out)
  else if g.twoDim then decodeRow2d g out
  else decodeRow1d g out

def faxDecodeConvert (g : DecInst) (inBuf out : List UInt8) : Except Fault Decoded :=
  if inBuf.length = 0 ∧ g.gb.cacheCnt < 13 then
    -- told to flush; our only buffer is the cache
    .ok ⟨true, false, false, false, 0, g.dwInNextPos, 0, g.dwOutNextPos, out, g⟩
  else if g.tossEverything then
    let inNextPos := g.dwInNextPos + UInt32.ofNat inBuf.length
    .ok ⟨false, false, false, false, inBuf.length, inNextPos, 0, g.dwOutNextPos, out,
      { g with dwInNextPos := inNextPos }⟩
  else do
    let (ret, g, out) ← decodeStep { g with gb := { g.gb with unread := inBuf } } out
    let g := afterFill (afterRow (afterError g ret) ret out) ret
    let (newOutputPage, g) ← afterEol g ret
    let inUsed := inBuf.length - g.gb.unread.length
    let inNextPos := g.dwInNextPos + UInt32.ofNat inUsed
    let outUsed := if ret.producedRow then g.bytesInRow else 0
    .ok ⟨false, ret.producedRow, ret.inputError, newOutputPage, inUsed, inNextPos, outUsed,
      g.dwOutNextPos, out,
      { g with
        dwInNextPos := inNextPos
        dwOutNextPos := g.dwOutNextPos + UInt32.ofNat outUsed }⟩

/-! ## The branches on the format -/

variable {g : DecInst} {out : List UInt8} {ret : Ret}

theorem atEol2d_mmr (h : g.inputFormat = .mmr) (ret : Ret) :
    unusual2d.atEol g out ret = ({ ret with inputError := decide (0 ≤ g.a0) }, g, out) := by
  rw [unusual2d.atEol, h]

theorem atEol2d_of_ne (h : g.inputFormat ≠ .mmr) (ret : Ret) :
    unusual2d.atEol g out ret
      = if ¬ g.refRowInvalid ∧ g.a0 = g.rowLen then ({ ret with producedRow := true }, g, out)
        else if 0 ≤ g.a0 then
          ({ ret with producedRow := true, inputError := true }, { g with refRowInvalid := true },
            repeatRow g out)
        else (ret, g, out) := by
  rw [unusual2d.atEol]
  cases hfmt : g.inputFormat with
  | mmr => exact absurd hfmt h
  | mh => rfl
  | mr => rfl

theorem afterError_of_ok (h : ret.inputError = false) : afterError g ret = g := by
  rw [afterError, h, if_neg Bool.false_ne_true]

theorem afterError_mmr (h : ret.inputError = true) (hfmt : g.inputFormat = .mmr) :
    afterError g ret = { g with gb := g.gb.flush, tossEverything := true } := by
  rw [afterError, if_pos h, hfmt]

theorem afterError_of_ne (h : ret.inputError = true) (hfmt : g.inputFormat ≠ .mmr) :
    afterError g ret = { g with flushingToEol := true, numEols := 0 } := by
  rw [afterError, if_pos h]
  cases hcase : g.inputFormat with
  | mmr => exact absurd hcase hfmt
  | mh => rfl
  | mr => rfl

theorem readTag_of_ne (h : g.inputFormat ≠ .mr) : readTag g = .ok g := by
  rw [readTag]
  cases hcase : g.inputFormat with
  | mr => exact absurd hcase h
  | mh => rfl
  | mmr => rfl

theorem readTag_mr (h : g.inputFormat = .mr) :
    readTag g = (do
      let bit ← g.gb.load 1
      .ok { g with twoDim := bit = 0, gb := g.gb.advance 1 }) := by
  rw [readTag, h]

end Hplip.Ip
