import Hplip.Hpcups.Compressor
import Hplip.Lib.CommandStream
import Hplip.Lib.Loop

/-!
# DeltaPlus strip compression (ModeDeltaPlus.cpp)

A strip of rows is written as commands. A command copies pixels from the row
above, predicts one pixel from a neighbour, from the last new colour or from a
byte of its own, and goes on with pixels copied from `dist` pixels back (a run)
or spelt out (literals). All writes are checked against an output budget.

Sizes are natural numbers: `*outlen` is a `uint32_t`, so that a budget that can
be passed at all leaves no sum below it to wrap around.
-/

namespace Hplip.Hpcups.ModeDeltaPlus

open Loop CommandStream

/-! ## Writing -/

/-- `write_comp_byte`; `cap` is `pastoutmem - outmem`. -/
def writeCompByte (cap : Nat) (val : UInt8) (out : List UInt8) : Option (List UInt8) := do
  check (out.length < cap)
  some (out ++ [val])

def encodeCount (cap count limit : Nat) (out : List UInt8) : Option (List UInt8) :=
  if count ≥ limit then
    let count := count - limit
    if count ≤ 253 then do
      check (out.length < cap)
      some (out ++ [UInt8.ofNat count])
    else if count ≤ 254 + 255 then do
      check (out.length + 1 < cap)
      check (count ≥ 254)
      check (count - 254 ≤ 255)
      some (out ++ [0xFE, UInt8.ofNat (count - 254)])
    else do
      check (out.length + 2 < cap)
      check (count ≥ 255)
      check (count - 255 ≤ 65535)
      let count := count - 255
      some (out ++ [0xFF, UInt8.ofNat (count >>> 8), UInt8.ofNat (count &&& 0xFF)])
  else some out

/-- The command byte of `encode_header`. -/
def headerByte (isrun location seedrowCount runCount : Nat) : UInt8 :=
  let byte := (isrun <<< 7) ||| (location <<< 5)
  let byte := if seedrowCount > 2 then byte ||| (0x03 <<< 3) else byte ||| (seedrowCount <<< 3)
  let byte := if runCount > 6 then byte ||| 0x07 else byte ||| runCount
  UInt8.ofNat byte

/-- `ModeDeltaPlus::encode_header`; a null pointer is `none`. -/
def encodeHeader (cap : Nat) (out : List UInt8) (isrun location seedrowCount runCount : Nat)
    (newColor : UInt8) : Option (List UInt8) := do
  check (location < 4)
  check (isrun = 0 ∨ isrun = 1)
  let out ← writeCompByte cap (headerByte isrun location seedrowCount runCount) out
  let out ← encodeCount cap seedrowCount 3 out
  let out ← if location = 0 then writeCompByte cap newColor out else some out
  encodeCount cap runCount 7 out

def writeCompBytes (cap : Nat) : List UInt8 → List UInt8 → Option (List UInt8)
  | [], out => some out
  | b :: bs, out => do
    let out ← writeCompByte cap b out
    writeCompBytes cap bs out

/-- The literals of a command; more than `memutil_thresh` go through `memcpy`. -/
def writeLiterals (cap : Nat) (byteArray : List UInt8) (out : List UInt8) :
    Option (List UInt8) :=
  if byteArray.length > 0 then
    if byteArray.length > 15 then do
      check (out.length + byteArray.length ≤ cap)
      some (out ++ byteArray)
    else writeCompBytes cap byteArray out
  else some out

/-! ## Scanning -/

structure Scan where
  col : Nat
  count : Nat

def Scan.advance (k : Nat) (s : Scan) : Scan := ⟨s.col + k, s.count + k⟩

section Row

variable (seedrow curRow : Mem) (rowWidth dist : Nat)

/-- The search by words: up to a word boundary by bytes, then as far as whole
words are equal. -/
def wordScan (col : Nat) : Option Scan := do
  let s ← whileDo (fun s : Scan => s.col &&& 3 ≠ 0 ∧ s.col < rowWidth ∧
    curRow s.col = seedrow s.col) (Scan.advance 1) (rowWidth + 1) ⟨col, 0⟩
  if s.col &&& 3 = 0 then
    whileDo (fun s : Scan => s.col + 3 < rowWidth ∧
      slice curRow s.col 4 = slice seedrow s.col 4) (Scan.advance 4) (rowWidth + 1) s
  else some s

/-- The seed row copy: by words where rows are whole words, the rest by bytes. -/
def seedScan (col : Nat) : Option Scan := do
  let s ← (if rowWidth % 4 = 0 then wordScan seedrow curRow rowWidth col else some ⟨col, 0⟩)
  whileDo (fun s : Scan => s.col < rowWidth ∧ curRow s.col = seedrow s.col) (Scan.advance 1)
    (rowWidth + 1) s

/-- The prediction for the pixel at `col`, and the colour that is new after it. -/
def predict (newColor : UInt8) (col : Nat) : Nat × UInt8 :=
  if col + 1 < rowWidth ∧ curRow col = seedrow (col + 1) then (1, newColor)
  else if col > 0 ∧ curRow col = seedrow (col - 1) then (2, newColor)
  else if curRow col = newColor then (3, newColor)
  else (0, curRow col)

/-- The pixel after `col` is the one `horz_ht_dist` before it. -/
def runs (col : Nat) : Prop :=
  col + 1 ≥ dist ∧ curRow (col + 1 - dist) = curRow (col + 1)

instance (col : Nat) : Decidable (runs curRow dist col) := by
  unfold runs
  infer_instance

def literalBreak (newColor : UInt8) (col : Nat) : Prop :=
  (curRow col = seedrow col ∧
    (curRow (col + 1) = seedrow (col + 1) ∨
      (curRow (col + 1) = seedrow col ∨ curRow (col + 1) = newColor) ∨
      (col + 2 < rowWidth ∧
        (runs curRow dist (col + 1) ∨ curRow (col + 1) = seedrow (col + 2))))) ∨
  (curRow col ≠ seedrow col ∧ runs curRow dist col ∧
    ((col + 2 < rowWidth ∧ runs curRow dist (col + 1)) ∨
      curRow col = seedrow (col + 1) ∨
      -- `LVAL_NW` without `LTEST_NW`: a literal is never at column 0
      curRow col = seedrow (col - 1) ∨
      curRow col = newColor))

instance (newColor : UInt8) (col : Nat) :
    Decidable (literalBreak seedrow curRow rowWidth dist newColor col) := by
  unfold literalBreak
  infer_instance

def runScan (col : Nat) : Option Scan :=
  whileDo (fun s : Scan => s.col + 1 < rowWidth ∧ runs curRow dist s.col) (Scan.advance 1)
    (rowWidth + 1) ⟨col, 0⟩

/-- The literals after the first pixel, at most `LITERAL_LIMIT` of them before
the one that ends the row. -/
def literalScan (newColor : UInt8) (col : Nat) : Option Scan := do
  let s ← whileDo (fun s : Scan => s.col + 1 < rowWidth ∧
      ¬ literalBreak seedrow curRow rowWidth dist newColor s.col ∧ ¬ s.count ≥ 511)
    (Scan.advance 1) (rowWidth + 1) ⟨col, 0⟩
  if s.col + 1 = rowWidth then some (s.advance 1) else some s

/-! ## The compressor -/

structure Locals where
  col : Nat
  newColor : UInt8
  out : List UInt8

/-- One iteration of `while (col < row_width)`. -/
def iter (cap : Nat) (s : Locals) : Option (Locals ⊕ Locals) :=
  if s.col < rowWidth then do
    let scan ← seedScan seedrow curRow rowWidth s.col
    if scan.col = rowWidth then do
      -- the rest of the row is a fake run
      let out ← encodeHeader cap s.out 1 1 scan.count 0 0
      some (.inr { s with col := scan.col, out := out })
    else do
      check (scan.col < rowWidth)
      let (location, newColor) := predict seedrow curRow rowWidth s.newColor scan.col
      if scan.col + 1 < rowWidth ∧ runs curRow dist scan.col then do
        let run ← runScan curRow rowWidth dist (scan.col + 1)
        let out ← encodeHeader cap s.out 1 location scan.count run.count newColor
        some (.inl ⟨run.col + 1, newColor, out⟩)
      else do
        let lit ← literalScan seedrow curRow rowWidth dist newColor (scan.col + 1)
        let out ← encodeHeader cap s.out 0 location scan.count lit.count newColor
        let out ← writeLiterals cap (slice curRow (scan.col + 1) lit.count) out
        some (.inl ⟨lit.col, newColor, out⟩)
  else some (.inr s)

def compressRow (cap : Nat) (newColor : UInt8) (out : List UInt8) : Option Locals :=
  loop (iter seedrow curRow rowWidth dist cap) (rowWidth + 1) ⟨0, newColor, out⟩

end Row

/-- `cur_row = inmem + row * row_width`. -/
def rowAt (inmem : Mem) (rowWidth row : Nat) : Mem := fun i => inmem (row * rowWidth + i)

/-- The seed row: the row before, and `pbySeedRow` for the first. -/
def seedAt (pbySeedRow inmem : Mem) (rowWidth : Nat) : Nat → Mem
  | 0 => pbySeedRow
  | row + 1 => rowAt inmem rowWidth row

def compressRows (pbySeedRow inmem : Mem) (rowWidth dist cap : Nat) :
    Nat → Option (UInt8 × List UInt8)
  | 0 => some (0xFF, [])
  | row + 1 => do
    let (newColor, out) ← compressRows pbySeedRow inmem rowWidth dist cap row
    let s ← compressRow (seedAt pbySeedRow inmem rowWidth row) (rowAt inmem rowWidth row)
      rowWidth dist cap newColor out
    some (s.newColor, s.out)

/-- `ModeDeltaPlus::compress`: `none` if it returns false, or goes on with a null
pointer. -/
def compress (pbySeedRow : Mem) (outlen : Nat) (inmem : Mem)
    (rowWidth inheight horzHtDist : Nat) : Option (List UInt8) :=
  if horzHtDist > 32 then none
  else do
    let dist := if horzHtDist < 1 then 1 else horzHtDist
    let (_, out) ← compressRows pbySeedRow inmem rowWidth dist outlen inheight
    check (out.length ≤ outlen)
    some out

/-! ## The printer's side -/

def readByte : List UInt8 → Option (UInt8 × List UInt8)
  | [] => none
  | b :: bs => some (b, bs)

/-- `decode_count`, for a count whose field of the command byte is `count`. -/
def decodeCount (count limit : Nat) (bs : List UInt8) : Option (Nat × List UInt8) :=
  if count ≥ limit then do
    let (inval, bs) ← readByte bs
    let count := count + inval.toNat
    if inval = 0xFE then do
      let (inval, bs) ← readByte bs
      some (count + inval.toNat, bs)
    else if inval = 0xFF then do
      let (high, bs) ← readByte bs
      let (low, bs) ← readByte bs
      some (count + (high.toNat <<< 8) + low.toNat, bs)
    else some (count, bs)
  else some (count, bs)

structure Header where
  isrun : Nat
  location : Nat
  seedrowCount : Nat
  color : UInt8
  runCount : Nat

/-- Read a header; the last new colour stays if the command brings none. -/
def readHeader (color : UInt8) (bs : List UInt8) : Option (Header × List UInt8) := do
  let (byte, bs) ← readByte bs
  let location := byte.toNat / 32 % 4
  let (seedrowCount, bs) ← decodeCount (byte.toNat / 8 % 4) 3 bs
  let (color, bs) ← if location = 0 then readByte bs else some (color, bs)
  let (runCount, bs) ← decodeCount (byte.toNat % 8) 7 bs
  some (⟨byte.toNat / 128, location, seedrowCount, color, runCount⟩, bs)

/-- The printer: the finished rows, the row before the current one, what is
known of the current one, and the last new colour. -/
structure Printer where
  image : List UInt8
  seed : List UInt8
  row : List UInt8
  color : UInt8

def Printer.put (p : Printer) (w : Nat) (row : List UInt8) : Printer :=
  if row.length = w then { p with image := p.image ++ row, seed := row, row := [] }
  else { p with row := row }

/-- The pixel that a location predicts after `row`. -/
def Printer.predicted (p : Printer) (row : List UInt8) (location : Nat) : Option UInt8 :=
  if location = 1 then p.seed[row.length + 1]?
  else if location = 2 then
    if row.length > 0 then p.seed[row.length - 1]? else none
  else some p.color

/-- Append `k` pixels, each the one `dist` before its place. -/
def copyBack (dist : Nat) : Nat → List UInt8 → Option (List UInt8)
  | 0, row => some row
  | k + 1, row => do
    check (dist ≤ row.length)
    let pixel ← row[row.length - dist]?
    copyBack dist k (row ++ [pixel])

def Printer.replace (p : Printer) (w dist isrun runCount : Nat) (row bs : List UInt8) :
    Option (Printer × List UInt8) :=
  if isrun = 1 then do
    let row ← copyBack dist (runCount + 1) row
    check (row.length ≤ w)
    some (p.put w row, bs)
  else do
    check (runCount ≤ bs.length ∧ row.length + runCount ≤ w)
    some (p.put w (row ++ bs.take runCount), bs.drop runCount)

def decodeStep (w dist : Nat) : Step Printer UInt8 := fun p bs => do
  let (h, bs) ← readHeader p.color bs
  let p := { p with color := h.color }
  check (p.row.length + h.seedrowCount ≤ w)
  let row := p.row ++ (p.seed.drop p.row.length).take h.seedrowCount
  -- a seed row copy that ends the row leaves nothing to replace
  if row.length = w then some (p.put w row, bs)
  else do
    let pixel ← p.predicted row h.location
    p.replace w dist h.isrun h.runCount (row ++ [pixel]) bs

def decodeStrip (w dist : Nat) (seed bytes : List UInt8) : Option (List UInt8) :=
  (decode (decodeStep w dist) bytes.length ⟨[], seed, [], 0xFF⟩ bytes).map Printer.image

/-! ## Counts and headers -/

def countBytes (count limit : Nat) : List UInt8 :=
  if count < limit then []
  else if count - limit ≤ 253 then [UInt8.ofNat (count - limit)]
  else if count - limit ≤ 509 then [0xFE, UInt8.ofNat (count - limit - 254)]
  else [0xFF, UInt8.ofNat ((count - limit - 255) / 256),
    UInt8.ofNat ((count - limit - 255) % 256)]

theorem countBytes_length (limit count : Nat) (hover : 3 ≤ limit) :
    (countBytes count limit).length ≤ count := by
  unfold countBytes
  split
  · exact Nat.zero_le count
  split
  · show 1 ≤ count
    omega
  split
  · show 2 ≤ count
    omega
  · show 3 ≤ count
    omega

theorem encodeCount_eq {cap count limit : Nat} {out : List UInt8}
    (hcount : count - limit ≤ 65535 + 255)
    (hcap : out.length + (countBytes count limit).length ≤ cap) :
    encodeCount cap count limit out = some (out ++ countBytes count limit) := by
  unfold encodeCount
  unfold countBytes at hcap ⊢
  by_cases h : count < limit
  · rw [if_neg (by lia), if_pos h, List.append_nil]
  rw [if_neg h] at hcap ⊢
  rw [if_pos (by lia : count ≥ limit)]
  dsimp only
  by_cases h1 : count - limit ≤ 253
  · rw [if_pos h1] at hcap
    rw [if_pos h1, if_pos h1, check_pos (Nat.lt_of_succ_le hcap)]
    rfl
  rw [if_neg h1] at hcap
  rw [if_neg h1, if_neg h1]
  by_cases h2 : count - limit ≤ 509
  · rw [if_pos h2] at hcap
    have hroom : out.length + 1 < cap := hcap
    rw [if_pos h2, if_pos h2, check_pos hroom, check_pos (by lia), check_pos (by lia)]
    rfl
  · rw [if_neg h2] at hcap
    have hroom : out.length + 2 < cap := hcap
    rw [if_neg h2, if_neg h2, check_pos hroom, check_pos (by lia), check_pos (by lia),
      Nat.shiftRight_eq_div_pow, Nat.and_two_pow_sub_one_eq_mod _ 8]
    rfl

@[simp] theorem toNat_ofNat_of_lt {n : Nat} (h : n < 256) : (UInt8.ofNat n).toNat = n := by
  rw [UInt8.toNat_ofNat', Nat.mod_eq_of_lt h]

theorem ofNat_ne {n m : Nat} (hn : n < 256) (hm : m < 256) (h : n ≠ m) :
    UInt8.ofNat n ≠ UInt8.ofNat m := by
  intro he
  have := congrArg UInt8.toNat he
  rw [toNat_ofNat_of_lt hn, toNat_ofNat_of_lt hm] at this
  exact h this

/-- **Counts round trip**: the field holds the count up to `limit`. -/
theorem decodeCount_countBytes {count limit : Nat} (hcount : count - limit ≤ 65535 + 255)
    (rest : List UInt8) :
    decodeCount (min count limit) limit (countBytes count limit ++ rest) = some (count, rest) := by
  unfold decodeCount countBytes
  by_cases h : count < limit
  · rw [if_pos h, if_neg (by lia), Nat.min_eq_left (by lia)]
    rfl
  rw [if_neg h, Nat.min_eq_right (by lia), if_pos (Nat.le_refl limit)]
  by_cases h1 : count - limit ≤ 253
  · rw [if_pos h1]
    show (if UInt8.ofNat _ = UInt8.ofNat 254 then _ else _) = _
    rw [if_neg (ofNat_ne (by lia) (by lia) (by lia))]
    show (if UInt8.ofNat _ = UInt8.ofNat 255 then _ else _) = _
    rw [if_neg (ofNat_ne (by lia) (by lia) (by lia)), toNat_ofNat_of_lt (by lia),
      Nat.add_sub_cancel' (by lia)]
    rfl
  rw [if_neg h1]
  by_cases h2 : count - limit ≤ 509
  · rw [if_pos h2]
    show some (limit + 254 + (UInt8.ofNat _).toNat, rest) = _
    rw [toNat_ofNat_of_lt (by lia), show limit + 254 + (count - limit - 254) = count by lia]
  · rw [if_neg h2]
    show some (limit + 255 + ((UInt8.ofNat _).toNat <<< 8) + (UInt8.ofNat _).toNat, rest) = _
    rw [toNat_ofNat_of_lt (by lia), toNat_ofNat_of_lt (by lia), Nat.shiftLeft_eq,
      show limit + 255 + (count - limit - 255) / 256 * 2 ^ 8 + (count - limit - 255) % 256 = count
        by lia]

def headerBytes (isrun location seedrowCount runCount : Nat) (newColor : UInt8) : List UInt8 :=
  headerByte isrun location seedrowCount runCount :: (countBytes seedrowCount 3 ++
    (if location = 0 then [newColor] else []) ++ countBytes runCount 7)

theorem headerByte_eq (isrun location seedrowCount runCount : Nat) :
    headerByte isrun location seedrowCount runCount = UInt8.ofNat
      (((isrun <<< 7) ||| (location <<< 5)) ||| (min seedrowCount 3 <<< 3) ||| min runCount 7) := by
  have hseed : ∀ byte, (if seedrowCount > 2 then byte ||| (0x03 <<< 3)
      else byte ||| (seedrowCount <<< 3)) = byte ||| (min seedrowCount 3 <<< 3) := by
    intro byte
    split
    · rw [Nat.min_eq_right (by omega)]
    · rw [Nat.min_eq_left (by omega)]
  have hrun : ∀ byte, (if runCount > 6 then byte ||| 0x07 else byte ||| runCount)
      = byte ||| min runCount 7 := by
    intro byte
    split
    · rw [Nat.min_eq_right (by omega)]
    · rw [Nat.min_eq_left (by omega)]
  unfold headerByte
  dsimp only
  rw [hseed, hrun]

theorem headerByte_fields {isrun location : Nat} (hrun : isrun < 2) (hloc : location < 4)
    (seedrowCount runCount : Nat) :
    let byte := (headerByte isrun location seedrowCount runCount).toNat
    byte / 128 = isrun ∧ byte / 32 % 4 = location ∧ byte / 8 % 4 = min seedrowCount 3 ∧
      byte % 8 = min runCount 7 := by
  have hall : ∀ i < 2, ∀ l < 4, ∀ s < 4, ∀ r < 8,
      let byte := (UInt8.ofNat (((i <<< 7) ||| (l <<< 5)) ||| (s <<< 3) ||| r)).toNat
      byte / 128 = i ∧ byte / 32 % 4 = l ∧ byte / 8 % 4 = s ∧ byte % 8 = r := by
    decide +kernel
  rw [headerByte_eq]
  exact hall isrun hrun location hloc _ (by omega) _ (by omega)

theorem writeCompByte_eq {cap : Nat} {val : UInt8} {out : List UInt8}
    (hcap : out.length + 1 ≤ cap) : writeCompByte cap val out = some (out ++ [val]) := by
  unfold writeCompByte
  rw [check_pos (Nat.lt_of_succ_le hcap)]
  rfl

theorem encodeHeader_eq {cap isrun location seedrowCount runCount : Nat} {newColor : UInt8}
    {out : List UInt8} (hloc : location < 4) (hrun : isrun < 2) (hs : seedrowCount ≤ 65535)
    (hr : runCount ≤ 65535)
    (hcap : out.length + (headerBytes isrun location seedrowCount runCount newColor).length
      ≤ cap) :
    encodeHeader cap out isrun location seedrowCount runCount newColor
      = some (out ++ headerBytes isrun location seedrowCount runCount newColor) := by
  unfold headerBytes at hcap ⊢
  simp only [List.length_cons, List.length_append] at hcap
  unfold encodeHeader
  rw [check_pos hloc, check_pos (by lia : isrun = 0 ∨ isrun = 1)]
  simp only [Option.bind_eq_bind, Option.bind_some]
  rw [writeCompByte_eq (by lia)]
  simp only [Option.bind_some]
  rw [encodeCount_eq (by lia) (by simp; lia)]
  simp only [Option.bind_some]
  by_cases h0 : location = 0
  · rw [if_pos h0] at hcap ⊢
    rw [if_pos h0, writeCompByte_eq (by simp at hcap ⊢; lia)]
    simp only [Option.bind_some]
    rw [encodeCount_eq (by lia) (by simp at hcap ⊢; lia)]
    simp
  · rw [if_neg h0] at hcap ⊢
    rw [if_neg h0]
    show encodeCount cap runCount 7 _ = _
    rw [encodeCount_eq (by lia) (by simp at hcap ⊢; lia)]
    simp

/-- **Headers round trip.** -/
theorem readHeader_headerBytes {isrun location seedrowCount runCount : Nat}
    {newColor color : UInt8} (hloc : location < 4) (hrun : isrun < 2)
    (hs : seedrowCount ≤ 65535) (hr : runCount ≤ 65535) (rest : List UInt8) :
    readHeader color (headerBytes isrun location seedrowCount runCount newColor ++ rest)
      = some (⟨isrun, location, seedrowCount, if location = 0 then newColor else color,
          runCount⟩, rest) := by
  obtain ⟨h1, h2, h3, h4⟩ := headerByte_fields hrun hloc seedrowCount runCount
  unfold readHeader headerBytes
  simp only [List.cons_append, List.append_assoc, readByte, Option.bind_eq_bind,
    Option.bind_some, h1, h2, h3, h4]
  rw [decodeCount_countBytes (by lia)]
  simp only [Option.bind_some]
  by_cases h0 : location = 0
  · simp only [if_pos h0, List.singleton_append, Option.bind_some]
    rw [decodeCount_countBytes (by lia)]
    rfl
  · simp only [if_neg h0, List.nil_append]
    rw [decodeCount_countBytes (by lia)]
    rfl

/-! ## The scans -/

/-- A scan that started at `col` and has counted to `k`. -/
def Scan.at (col k : Nat) : Scan := ⟨col + k, k⟩

theorem Scan.advance_at (col k j : Nat) : (Scan.at col k).advance j = Scan.at col (k + j) := by
  unfold Scan.advance Scan.at
  rw [Nat.add_assoc]

section Row

variable (seed cur : Mem) (w dist : Nat)

def SeedScanned (col : Nat) (s : Scan) : Prop :=
  ∃ k, s = .at col k ∧ col + k ≤ w ∧ ∀ j < k, cur (col + j) = seed (col + j)

variable {seed cur w dist}

theorem SeedScanned.advance {col k m : Nat} (hfit : col + (k + m) ≤ w)
    (heq : ∀ j < k, cur (col + j) = seed (col + j))
    (hnew : slice cur (col + k) m = slice seed (col + k) m) :
    SeedScanned seed cur w col ((Scan.at col k).advance m) := by
  refine ⟨k + m, Scan.advance_at col k m, hfit, fun j hj => ?_⟩
  by_cases hjk : j < k
  · exact heq j hjk
  · have hcell := slice_eq_iff.mp hnew (j - k) (by lia)
    rwa [Nat.add_assoc, Nat.add_sub_cancel' (not_lt.mp hjk)] at hcell

theorem seedWhile_spec {col m : Nat} (hm : 0 < m) {cond : Scan → Prop} [DecidablePred cond]
    (hcond : ∀ s, cond s → s.col + m ≤ w ∧ slice cur s.col m = slice seed s.col m) {s : Scan}
    (hs : SeedScanned seed cur w col s) :
    Returns (whileDo cond (Scan.advance m) (w + 1) s) (SeedScanned seed cur w col) := by
  refine (Returns.whileDo (SeedScanned seed cur w col) (fun s : Scan => w - s.col) ?_
    (w + 1) s hs (Nat.lt_succ_of_le (Nat.sub_le _ _))).mono fun _ h => h.1
  rintro _ ⟨k, rfl, hfit, heq⟩ hc
  obtain ⟨hroom, hnew⟩ := hcond _ hc
  have hroom : col + k + m ≤ w := hroom
  refine ⟨SeedScanned.advance (by lia) heq hnew, ?_⟩
  show w - (col + k + m) < w - (col + k)
  lia

theorem seedScan_spec {col : Nat} (hcol : col ≤ w) :
    Returns (seedScan seed cur w col) (SeedScanned seed cur w col) := by
  have hstart : SeedScanned seed cur w col ⟨col, 0⟩ :=
    ⟨0, rfl, hcol, fun j hj => absurd hj (Nat.not_lt_zero j)⟩
  have hbyte : ∀ s : Scan, s.col < w ∧ cur s.col = seed s.col →
      s.col + 1 ≤ w ∧ slice cur s.col 1 = slice seed s.col 1 := by
    rintro s ⟨hlt, heq⟩
    refine ⟨hlt, ?_⟩
    rw [slice_one, slice_one, heq]
  unfold seedScan
  refine Returns.bind (P := SeedScanned seed cur w col) ?_ fun s hs =>
    seedWhile_spec (by decide) hbyte hs
  refine Returns.ite (fun _ => ?_) (fun _ => Returns.pure hstart)
  unfold wordScan
  refine Returns.bind (seedWhile_spec (by decide) (fun s hc => hbyte s hc.2) hstart)
    fun s hs => ?_
  refine Returns.ite (fun _ => ?_) (fun _ => Returns.pure hs)
  exact seedWhile_spec (by decide) (fun s hc => ⟨hc.1, hc.2⟩) hs

theorem runScan_spec {q : Nat} (hq : q + 1 < w) (hrun : runs cur dist q) :
    Returns (runScan cur w dist (q + 1)) fun s => ∃ n, s = .at (q + 1) n ∧ q + 1 + n < w ∧
      ∀ j ≤ n, runs cur dist (q + j) := by
  refine (Returns.whileDo (fun s : Scan => ∃ n, s = .at (q + 1) n ∧ q + 1 + n < w ∧
      ∀ j ≤ n, runs cur dist (q + j)) (fun s : Scan => w - s.col) ?_ (w + 1) _ ?_
    (Nat.lt_succ_of_le (Nat.sub_le _ _))).mono fun _ h => h.1
  · rintro _ ⟨n, rfl, hfit, hruns⟩ ⟨hlt, hnext⟩
    have hlt : q + 1 + n + 1 < w := hlt
    have hnext : runs cur dist (q + 1 + n) := hnext
    refine ⟨⟨n + 1, Scan.advance_at _ _ _, hlt, fun j hj => ?_⟩, ?_⟩
    · rcases Nat.le_or_eq_of_le_succ hj with hj | rfl
      · exact hruns j hj
      · rwa [Nat.add_right_comm] at hnext
    · show w - (q + 1 + n + 1) < w - (q + 1 + n)
      lia
  · refine ⟨0, rfl, hq, fun j hj => ?_⟩
    rw [Nat.le_zero.mp hj]
    exact hrun

theorem literalScan_spec {newColor : UInt8} {col : Nat} (hcol : col ≤ w) :
    Returns (literalScan seed cur w dist newColor col) fun s =>
      ∃ n, s = .at col n ∧ col + n ≤ w := by
  unfold literalScan
  refine Returns.bind (P := fun s : Scan => ∃ n, s = .at col n ∧ col + n ≤ w) ?_ ?_
  · refine (Returns.whileDo (fun s : Scan => ∃ n, s = .at col n ∧ col + n ≤ w)
      (fun s : Scan => w - s.col) ?_ (w + 1) _ ⟨0, rfl, hcol⟩
      (Nat.lt_succ_of_le (Nat.sub_le _ _))).mono fun _ h => h.1
    rintro _ ⟨n, rfl, -⟩ ⟨hlt, -⟩
    have hlt : col + n + 1 < w := hlt
    refine ⟨⟨n + 1, Scan.advance_at _ _ _, Nat.le_of_lt hlt⟩, ?_⟩
    show w - (col + n + 1) < w - (col + n)
    lia
  · rintro _ ⟨n, rfl, hfit⟩
    refine Returns.ite (fun hlast => ?_) (fun _ => Returns.pure ⟨n, rfl, hfit⟩)
    exact Returns.pure ⟨n + 1, Scan.advance_at _ _ _, Nat.le_of_eq hlast⟩

/-! ## Commands -/

theorem predict_color (seed cur : Mem) (w : Nat) (newColor : UInt8) (col : Nat) :
    (predict seed cur w newColor col).1 < 4 ∧
      (if (predict seed cur w newColor col).1 = 0 then (predict seed cur w newColor col).2
        else newColor) = (predict seed cur w newColor col).2 := by
  unfold predict
  split
  · exact ⟨by simp, rfl⟩
  split
  · exact ⟨by simp, rfl⟩
  split
  · exact ⟨by simp, rfl⟩
  · exact ⟨by simp, rfl⟩

theorem predicted_predict (newColor : UInt8) {col : Nat} (hcol : col < w) {p : Printer}
    (hseed : p.seed = slice seed 0 w)
    (hcolor : p.color = (predict seed cur w newColor col).2) :
    p.predicted (slice cur 0 col) (predict seed cur w newColor col).1 = some (cur col) := by
  have hget : ∀ i < w, p.seed[i]? = some (seed i) := by
    intro i hi
    rw [hseed, slice_getElem? seed 0 hi, Nat.zero_add]
  unfold Printer.predicted
  unfold predict at hcolor ⊢
  rw [slice_length]
  by_cases h1 : col + 1 < w ∧ cur col = seed (col + 1)
  · rw [if_pos h1, if_pos rfl, hget _ h1.1, h1.2]
  rw [if_neg h1] at hcolor ⊢
  by_cases h2 : col > 0 ∧ cur col = seed (col - 1)
  · rw [if_pos h2, if_neg (by simp), if_pos rfl, if_pos h2.1, hget _ (by lia), h2.2]
  rw [if_neg h2] at hcolor ⊢
  by_cases h3 : cur col = newColor
  · rw [if_pos h3] at hcolor ⊢
    rw [if_neg (by simp), if_neg (by simp), hcolor, h3]
  · rw [if_neg h3] at hcolor ⊢
    rw [if_neg (by simp), if_neg (by simp), hcolor]

theorem copyBack_slice (hdist : 1 ≤ dist) {col k : Nat}
    (hruns : ∀ j < k, dist ≤ col + j ∧ cur (col + j - dist) = cur (col + j)) :
    copyBack dist k (slice cur 0 col) = some (slice cur 0 (col + k)) := by
  induction k generalizing col with
  | zero => rfl
  | succ k ih =>
    obtain ⟨hle, heq⟩ := hruns 0 (Nat.succ_pos k)
    rw [Nat.add_zero] at hle heq
    have hpixel : (slice cur 0 col)[col - dist]? = some (cur col) := by
      rw [slice_getElem? cur 0 (by omega), Nat.zero_add, heq]
    have hnext : slice cur 0 col ++ [cur col] = slice cur 0 (col + 1) := by
      rw [slice_concat, Nat.zero_add]
    unfold copyBack
    rw [slice_length, check_pos hle]
    simp only [Option.bind_eq_bind, Option.bind_some, hpixel]
    rw [hnext, ih, Nat.add_right_comm]
    · rfl
    · intro j hj
      have hstep := hruns (j + 1) (Nat.succ_lt_succ hj)
      rwa [← Nat.add_assoc, Nat.add_right_comm col j 1] at hstep

variable (seed cur w)

/-- The printer when the current row is known up to `col`. -/
def standing (image : List UInt8) (color : UInt8) (col : Nat) : Printer :=
  Printer.put ⟨image, slice seed 0 w, [], color⟩ w (slice cur 0 col)

theorem standing_of_lt {image : List UInt8} {color : UInt8} {col : Nat} (hcol : col < w) :
    standing seed cur w image color col
      = ⟨image, slice seed 0 w, slice cur 0 col, color⟩ := by
  unfold standing Printer.put
  rw [slice_length, if_neg (Nat.ne_of_lt hcol)]

theorem standing_self (image : List UInt8) (color : UInt8) :
    standing seed cur w image color w
      = ⟨image ++ slice cur 0 w, slice cur 0 w, [], color⟩ := by
  unfold standing Printer.put
  rw [slice_length, if_pos rfl]

theorem standing_zero (image : List UInt8) (color : UInt8) :
    standing seed cur w image color 0 = ⟨image, slice seed 0 w, [], color⟩ := by
  by_cases hw : w = 0
  · subst hw
    rw [standing_self, slice_zero, slice_zero, List.append_nil]
  · exact standing_of_lt seed cur w (Nat.pos_of_ne_zero hw)

variable {seed cur w}

theorem slice_append_seed {col k : Nat} (hfit : col + k ≤ w)
    (heq : ∀ j < k, cur (col + j) = seed (col + j)) :
    slice cur 0 col ++ ((slice seed 0 w).drop col).take k = slice cur 0 (col + k) := by
  rw [take_drop_slice seed hfit, slice_add, Nat.zero_add, slice_congr heq]

variable {image : List UInt8} {color : UInt8} {col k : Nat}

theorem decodeStep_seed (hw : w ≤ 65535) (hcol : col < w) (hk : col + k = w)
    (heq : ∀ j < k, cur (col + j) = seed (col + j)) (rest : List UInt8) :
    decodeStep w dist (standing seed cur w image color col) (headerBytes 1 1 k 0 0 ++ rest)
      = some (standing seed cur w image color w, rest) := by
  unfold decodeStep
  rw [standing_of_lt seed cur w hcol,
    readHeader_headerBytes (by decide) (by decide) (by omega) (by decide)]
  simp only [Option.bind_eq_bind, Option.bind_some, slice_length]
  rw [check_pos (Nat.le_of_eq hk), slice_append_seed (Nat.le_of_eq hk) heq, hk]
  simp only [Option.bind_some, slice_length, if_true]
  rfl

theorem decodeStep_pixel (hw : w ≤ 65535) (hk : col + k < w)
    (heq : ∀ j < k, cur (col + j) = seed (col + j)) {isrun n : Nat} (hrun : isrun < 2)
    (hn : n ≤ 65535) (rest : List UInt8) :
    let pred := predict seed cur w color (col + k)
    decodeStep w dist (standing seed cur w image color col)
        (headerBytes isrun pred.1 k n pred.2 ++ rest)
      = Printer.replace ⟨image, slice seed 0 w, slice cur 0 col, pred.2⟩ w dist isrun n
          (slice cur 0 (col + k + 1)) rest := by
  dsimp only
  have hpixel := predicted_predict color hk
    (p := ⟨image, slice seed 0 w, slice cur 0 col, (predict seed cur w color (col + k)).2⟩) rfl rfl
  obtain ⟨hloc, hcolor⟩ := predict_color seed cur w color (col + k)
  unfold decodeStep
  rw [standing_of_lt seed cur w (by lia), readHeader_headerBytes hloc hrun (by lia) hn]
  simp only [Option.bind_eq_bind, Option.bind_some, slice_length]
  rw [check_pos (Nat.le_of_lt hk), slice_append_seed (Nat.le_of_lt hk) heq, hcolor]
  simp only [Option.bind_some, slice_length, if_neg (Nat.ne_of_lt hk), hpixel]
  rw [slice_concat, Nat.zero_add]

theorem put_row (image seedRow row row' : List UInt8) (color : UInt8) (w : Nat) :
    Printer.put ⟨image, seedRow, row, color⟩ w row'
      = Printer.put ⟨image, seedRow, [], color⟩ w row' := by
  unfold Printer.put
  split
  · rfl
  · rfl

theorem replace_run (hdist : 1 ≤ dist) {row rest : List UInt8} {q n : Nat} (hn : q + 1 + n < w)
    (hruns : ∀ j ≤ n, runs cur dist (q + j)) :
    Printer.replace ⟨image, slice seed 0 w, row, color⟩ w dist 1 n (slice cur 0 (q + 1)) rest
      = some (standing seed cur w image color (q + 1 + n + 1), rest) := by
  have hcopy : copyBack dist (n + 1) (slice cur 0 (q + 1))
      = some (slice cur 0 (q + 1 + (n + 1))) := by
    refine copyBack_slice hdist fun j hj => ?_
    have hstep := hruns j (Nat.le_of_lt_succ hj)
    unfold runs at hstep
    rwa [Nat.add_right_comm] at hstep
  unfold Printer.replace
  rw [if_pos rfl, hcopy]
  simp only [Option.bind_eq_bind, Option.bind_some, slice_length]
  rw [check_pos (by omega), put_row]
  rfl

theorem replace_literals {row rest : List UInt8} {q n : Nat} (hn : q + 1 + n ≤ w) :
    Printer.replace ⟨image, slice seed 0 w, row, color⟩ w dist 0 n (slice cur 0 (q + 1))
        (slice cur (q + 1) n ++ rest)
      = some (standing seed cur w image color (q + 1 + n), rest) := by
  have hroom : n ≤ (slice cur (q + 1) n ++ rest).length := by
    rw [List.length_append, slice_length]
    exact Nat.le_add_right n _
  have hrow : slice cur 0 (q + 1) ++ slice cur (q + 1) n = slice cur 0 (q + 1 + n) := by
    rw [slice_add cur 0 (q + 1) n, Nat.zero_add]
  unfold Printer.replace
  rw [if_neg (by decide), slice_length, check_pos ⟨hroom, hn⟩,
    List.take_left' (slice_length ..), List.drop_left' (slice_length ..), hrow]
  simp only [Option.bind_eq_bind, Option.bind_some]
  rw [put_row]
  rfl

theorem writeCompBytes_eq {cap : Nat} {bytes out : List UInt8}
    (hcap : out.length + bytes.length ≤ cap) :
    writeCompBytes cap bytes out = some (out ++ bytes) := by
  induction bytes generalizing out with
  | nil =>
    rw [List.append_nil]
    rfl
  | cons b bs ih =>
    rw [List.length_cons] at hcap
    unfold writeCompBytes
    rw [writeCompByte_eq (by omega)]
    simp only [Option.bind_eq_bind, Option.bind_some]
    rw [ih (by simp; omega), List.append_assoc, List.singleton_append]

theorem writeLiterals_eq {cap : Nat} {bytes out : List UInt8}
    (hcap : out.length + bytes.length ≤ cap) :
    writeLiterals cap bytes out = some (out ++ bytes) := by
  unfold writeLiterals
  by_cases hpos : bytes.length > 0
  · rw [if_pos hpos]
    by_cases hlong : bytes.length > 15
    · rw [if_pos hlong, check_pos hcap]
      rfl
    · rw [if_neg hlong, writeCompBytes_eq hcap]
  · rw [if_neg hpos, List.length_eq_zero_iff.mp (Nat.eq_zero_of_not_pos hpos), List.append_nil]

theorem headerBytes_length (isrun location seedrowCount runCount : Nat) (newColor : UInt8) :
    (headerBytes isrun location seedrowCount runCount newColor).length
      = 1 + (countBytes seedrowCount 3).length + (if location = 0 then 1 else 0)
        + (countBytes runCount 7).length := by
  unfold headerBytes
  split <;> simp <;> lia

theorem headerBytes_ne_nil (isrun location seedrowCount runCount : Nat) (newColor : UInt8) :
    headerBytes isrun location seedrowCount runCount newColor ≠ [] :=
  List.cons_ne_nil _ _

end Row

/-! ## Rows and strips -/

section Strip

variable (start : Printer) (seed cur : Mem) (w dist : Nat) (image : List UInt8)

/-- What the column loop keeps: the commands take the printer to the column
reached, at no more than two bytes per pixel. -/
structure Inv (s : Locals) : Prop where
  le : s.col ≤ w
  takes : Takes (decodeStep w dist) start s.out (standing seed cur w image s.newColor s.col)
  size : s.out.length ≤ 2 * (image.length + s.col)

structure Done (s : Locals) : Prop where
  takes : Takes (decodeStep w dist) start s.out
    ⟨image ++ slice cur 0 w, slice cur 0 w, [], s.newColor⟩
  size : s.out.length ≤ 2 * (image.length + w)

variable {start seed cur w dist image}

theorem Inv.done {s : Locals} (h : Inv start seed cur w dist image s) (hcol : s.col = w) :
    Done start cur w dist image s where
  takes := by
    rw [← standing_self seed cur w, ← hcol]
    have := h.takes
    rwa [← hcol] at this
  size := hcol ▸ h.size

theorem Inv.command {s : Locals} (h : Inv start seed cur w dist image s) {c : List UInt8}
    {col : Nat} {newColor : UInt8} (hne : c ≠ []) (hcol : col ≤ w)
    (hsize : c.length ≤ 2 * (col - s.col)) (hle : s.col ≤ col)
    (hc : ∀ rest, decodeStep w dist (standing seed cur w image s.newColor s.col) (c ++ rest)
      = some (standing seed cur w image newColor col, rest)) :
    Inv start seed cur w dist image ⟨col, newColor, s.out ++ c⟩ where
  le := hcol
  takes := h.takes.snoc hne hc
  size := by
    have hold := h.size
    show (s.out ++ c).length ≤ 2 * (image.length + col)
    rw [List.length_append]
    lia

theorem iter_spec {cap : Nat} (hw : w ≤ 65535) (hdist : 1 ≤ dist)
    (hcap : 2 * (image.length + w) ≤ cap) {s : Locals}
    (h : Inv start seed cur w dist image s) :
    Returns (iter seed cur w dist cap s) fun r => Sum.elim
      (fun s' => Inv start seed cur w dist image s' ∧ w - s'.col < w - s.col)
      (Done start cur w dist image) r := by
  have hle := h.le
  have hold := h.size
  unfold iter
  refine Returns.ite (fun hcol => ?_) (fun hcol => ?_)
  swap
  · exact Returns.pure (h.done (by lia))
  refine Returns.bind (seedScan_spec hle) ?_
  rintro _ ⟨k, rfl, hk, heq⟩
  dsimp only [Scan.at]
  refine Returns.ite (fun hend => ?_) (fun hend => ?_)
  · -- the rest of the row is the seed row's
    have hk0 := countBytes_length 3 k (by decide)
    have hshort : (headerBytes 1 1 k 0 0).length ≤ 2 * k := by
      have hnone : (countBytes 0 7).length = 0 := rfl
      rw [headerBytes_length, hnone, if_neg (by decide)]
      lia
    rw [encodeHeader_eq (by decide) (by decide) (by lia) (by decide) (by lia)]
    refine Returns.pure (Inv.done (h.command
      (headerBytes_ne_nil 1 1 k 0 0) hk (by lia) (Nat.le_add_right _ _) ?_) hend)
    intro rest
    rw [hend]
    exact decodeStep_seed hw hcol hend heq rest
  have hlt : s.col + k < w := Nat.lt_of_le_of_ne hk hend
  have hseed := countBytes_length 3 k (by decide)
  obtain ⟨hloc, -⟩ := predict_color seed cur w s.newColor (s.col + k)
  have hheader : ∀ isrun n, (headerBytes isrun
      (predict seed cur w s.newColor (s.col + k)).1 k n
      (predict seed cur w s.newColor (s.col + k)).2).length ≤ 2 + k + n := by
    intro isrun n
    have hcount := countBytes_length 7 n (by decide)
    rw [headerBytes_length]
    split <;> lia
  refine Returns.check hlt ?_
  refine Returns.ite (fun hrun => ?_) (fun _ => ?_)
  · refine Returns.bind (runScan_spec hrun.1 hrun.2) ?_
    rintro _ ⟨n, rfl, hfit, hruns⟩
    have hlen := hheader 1 n
    dsimp only [Scan.at]
    rw [encodeHeader_eq hloc (by decide) (by lia) (by lia) (by lia)]
    refine Returns.pure ⟨h.command (headerBytes_ne_nil _ _ _ _ _) hfit (by lia) (by lia)
      fun rest => ?_, by show w - (s.col + k + 1 + n + 1) < w - s.col; lia⟩
    rw [decodeStep_pixel hw hlt heq (by decide) (by lia) rest]
    exact replace_run hdist hfit hruns
  · refine Returns.bind (literalScan_spec (Nat.succ_le_of_lt hlt)) ?_
    rintro _ ⟨n, rfl, hfit⟩
    have hlen := hheader 0 n
    dsimp only [Scan.at]
    rw [encodeHeader_eq hloc (by decide) (by lia) (by lia) (by lia)]
    simp only [Option.bind_eq_bind, Option.bind_some]
    rw [writeLiterals_eq (by simp; lia), List.append_assoc]
    refine Returns.pure ⟨h.command (by simp [headerBytes_ne_nil]) hfit (by simp; lia)
      (by lia) fun rest => ?_, by show w - (s.col + k + 1 + n) < w - s.col; lia⟩
    rw [List.append_assoc, decodeStep_pixel hw hlt heq (by decide) (by lia)]
    exact replace_literals hfit

theorem compressRow_spec {cap : Nat} (hw : w ≤ 65535) (hdist : 1 ≤ dist)
    (hcap : 2 * (image.length + w) ≤ cap) {newColor : UInt8} {out : List UInt8}
    (htakes : Takes (decodeStep w dist) start out ⟨image, slice seed 0 w, [], newColor⟩)
    (hsize : out.length ≤ 2 * image.length) :
    Returns (compressRow seed cur w dist cap newColor out) (Done start cur w dist image) := by
  have hinit : Inv start seed cur w dist image ⟨0, newColor, out⟩ := by
    refine ⟨Nat.zero_le w, ?_, hsize⟩
    rw [standing_zero]
    exact htakes
  exact Returns.loop (Inv start seed cur w dist image) (fun s : Locals => w - s.col)
    (fun s hs => iter_spec hw hdist hcap hs) (w + 1) _ hinit (Nat.lt_succ_of_le (Nat.sub_le w 0))

end Strip

variable {seedRow inmem : Mem} {w dist : Nat}

theorem slice_rowAt (inmem : Mem) (w row : Nat) :
    slice inmem 0 (row * w) ++ slice (rowAt inmem w row) 0 w
      = slice inmem 0 ((row + 1) * w) := by
  have hrow : slice (rowAt inmem w row) 0 w = slice inmem (row * w) w :=
    slice_congr fun j _ => by rw [rowAt, Nat.zero_add]
  rw [hrow, Nat.succ_mul, slice_add, Nat.zero_add]

theorem compressRows_spec {cap : Nat} (dist : Nat) (hw : w ≤ 65535) (hdist : 1 ≤ dist) (row : Nat)
    (hcap : 2 * (row * w) ≤ cap) :
    Returns (compressRows seedRow inmem w dist cap row) fun r =>
      Takes (decodeStep w dist) ⟨[], slice seedRow 0 w, [], 0xFF⟩ r.2
        ⟨slice inmem 0 (row * w), slice (seedAt seedRow inmem w row) 0 w, [], r.1⟩ ∧
      r.2.length ≤ 2 * (row * w) := by
  induction row with
  | zero =>
    rw [Nat.zero_mul]
    exact Returns.pure ⟨.nil _, Nat.zero_le _⟩
  | succ row ih =>
    have hrow : 2 * ((slice inmem 0 (row * w)).length + w) = 2 * ((row + 1) * w) := by
      rw [slice_length, Nat.add_one_mul row w]
    have hprev : 2 * (row * w) ≤ cap := by
      rw [Nat.add_one_mul row w] at hcap
      lia
    unfold compressRows
    refine Returns.bind (ih hprev) ?_
    rintro ⟨newColor, out⟩ ⟨htakes, hsize⟩
    refine Returns.bind (compressRow_spec hw hdist (hrow ▸ hcap) htakes (by rwa [slice_length])) ?_
    rintro s hs
    have htakes' := hs.takes
    rw [slice_rowAt] at htakes'
    exact Returns.pure ⟨htakes', hrow ▸ hs.size⟩

/-- **Round trip of a strip.** With twice the size of the strip as budget the
compressor never gives up, whatever the image is, and the printer gets the
image back. -/
theorem compress_round_trip (w h : Nat) (hw : w ≤ 65535) (seedRow inmem : Mem)
    (hseed : ∀ i < w, seedRow i = 0) :
    Returns (compress seedRow (2 * w * h) inmem w h 16) fun out =>
      out.length ≤ 2 * w * h ∧
      decodeStrip w 16 (List.replicate w 0) out = some (slice inmem 0 (h * w)) := by
  have hbudget : 2 * (h * w) = 2 * w * h := by
    rw [Nat.mul_assoc, Nat.mul_comm w h]
  have hzero : slice seedRow 0 w = List.replicate w 0 :=
    slice_eq_replicate fun j hj => by rw [Nat.zero_add, hseed j hj]
  unfold compress
  rw [if_neg (by decide)]
  refine Returns.bind (compressRows_spec 16 hw (by decide) h
    (Nat.le_of_eq hbudget)) ?_
  rintro ⟨newColor, out⟩ ⟨htakes, hsize⟩
  rw [hbudget] at hsize
  refine Returns.check hsize (Returns.pure ⟨hsize, ?_⟩)
  unfold decodeStrip
  rw [← hzero, htakes.decode_eq (Nat.le_refl _)]
  rfl

/-- A strip of two equal rows after a blank seed row. -/
theorem compress_round_trip_two_rows : Returns
    (compress (fun _ => 0) 32 (fun i => UInt8.ofNat (i % 8)) 8 2 16) fun out =>
      decodeStrip 8 16 (List.replicate 8 0) out
        = some [0, 1, 2, 3, 4, 5, 6, 7, 0, 1, 2, 3, 4, 5, 6, 7] := by
  refine (compress_round_trip 8 2 (by decide) _ _ fun _ _ => rfl).mono ?_
  rintro out ⟨-, hdecode⟩
  exact hdecode

end Hplip.Hpcups.ModeDeltaPlus
