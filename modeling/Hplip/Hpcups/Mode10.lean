import Hplip.Hpcups.Compressor
import Hplip.Lib.CommandStream
import Hplip.Lib.Loop
import Hplip.Lib.Vli
import Mathlib.Data.Nat.Bitwise

/-!
# Mode 10: pixel-wise delta rows (Mode10.cpp, Mode10.h)

A row of RGB pixels is written as commands: a copy of pixels from the seed row,
then either pixels that are spelt out or one pixel that is repeated. The first
pixel of a command is the cached colour, the seed row's pixel to the north-east,
the pixel to the west, or a new one; new pixels are short deltas against the
seed row where these fit, and 23 bits otherwise.

While a row is compressed its last pixel is replaced by a sentinel, which ends
the scans for equal pixels. Every read goes through a check that it is inside
the row, and every assertion of the source is a check as well, so that a run
that returns has neither left the row nor failed an assertion.

`GetRed` and its siblings are those of a little-endian host.
-/

namespace Hplip.Hpcups.Mode10

open Loop CommandStream

/-! ## Pixels -/

def kWhite : Nat := 0x00FFFFFE

def get3Pixel (m : Mem) (i : Nat) : Nat :=
  kWhite &&& (((m (3 * i)).toNat <<< 16) |||
    (((m (3 * i + 1)).toNat <<< 8) ||| (m (3 * i + 2)).toNat))

def put3Pixel (m : Mem) (i pixel : Nat) : Mem := fun j =>
  let temp := pixel &&& kWhite
  if j = 3 * i then UInt8.ofNat ((temp >>> 16) &&& 0xFF)
  else if j = 3 * i + 1 then UInt8.ofNat ((temp >>> 8) &&& 0xFF)
  else if j = 3 * i + 2 then UInt8.ofNat (temp &&& 0xFF)
  else m j

/-- `getPixel`, inside a row of `width` pixels. -/
def getPixel (width : Nat) (m : Mem) (i : Nat) : Option Nat := do
  check (i < width)
  some (get3Pixel m i)

def getRed (x : Nat) : Nat := (x >>> 16) &&& 0xFF

def getGreen (x : Nat) : Nat := (x >>> 8) &&& 0xFF

def getBlue (x : Nat) : Nat := x &&& 0xFF

/-- `ShortDelta`. Masking the low bits of an `int` is the remainder modulo their
power of two, and shifting it to the right the division that rounds down. -/
def shortDelta (lastPixel lastUpperPixel : Nat) : Nat :=
  let dr : Int := getRed lastPixel - getRed lastUpperPixel
  let dg : Int := getGreen lastPixel - getGreen lastUpperPixel
  let db : Int := getBlue lastPixel - getBlue lastUpperPixel
  if dr ≤ 15 ∧ dr ≥ -16 ∧ dg ≤ 15 ∧ dg ≥ -16 ∧ db ≤ 30 ∧ db ≥ -32 then
    ((dr % 32).toNat <<< 10) ||| ((((dg % 32).toNat <<< 5) ||| (db / 2 % 32).toNat) ||| 0x8000)
  else 0

def writePixel (pixel upper : Nat) : List UInt8 :=
  let compressedPixel := shortDelta pixel upper
  if compressedPixel ≠ 0 then
    [UInt8.ofNat (compressedPixel >>> 8), UInt8.ofNat compressedPixel]
  else
    let uncompressedPixel := pixel >>> 1
    [UInt8.ofNat (uncompressedPixel >>> 16), UInt8.ofNat (uncompressedPixel >>> 8),
      UInt8.ofNat uncompressedPixel]

/-! ## Scans over a row -/

section Scans

variable (width : Nat) (seed row : Mem)

/-- The sentinel: add one to green until the last pixel differs from the one to
its left and from the seed row's last. -/
def placeSentinel : Option Mem := do
  let lastPixel := width - 1
  let realLastPixel ← getPixel width row lastPixel
  loop (fun s : Mem × Nat => do
    let left ← getPixel width s.1 (lastPixel - 1)
    let upper ← getPixel width seed lastPixel
    if left = s.2 ∨ upper = s.2 then
      let newLastPixel := (s.2 + 0x100) % 2 ^ 32
      some (.inl (put3Pixel s.1 lastPixel newLastPixel, newLastPixel))
    else some (.inr s.1)) 3 (row, realLastPixel)

/-- `while (getPixel (seedRowPtr, curPixel) == getPixel (curRowPtr, curPixel))`. -/
def seedScan : Nat → Option Nat :=
  loop (fun curPixel => do
    let s ← getPixel width seed curPixel
    let c ← getPixel width row curPixel
    if s = c then some (.inl (curPixel + 1)) else some (.inr curPixel)) (width + 1)

/-- `while (RLERun == getPixel (curRowPtr, curPixel))`. -/
def runScan (rleRun : Nat) : Nat → Option Nat :=
  loop (fun curPixel => do
    let c ← getPixel width row curPixel
    if rleRun = c then some (.inl (curPixel + 1)) else some (.inr curPixel)) (width + 1)

/-- The `do` loop over literals; `.2` of its state is `nextPixel`. The last pixel
is restored when it becomes a literal. -/
def literalScan (realLastPixel : Nat) : Nat × Nat → Option (Mem × Nat) :=
  loop (fun s => do
    let curPixel := s.1 + 1
    if curPixel = width - 1 then
      some (.inr (put3Pixel row (width - 1) realLastPixel, curPixel + 1))
    else
      let cachePixel := s.2
      let nextPixel ← getPixel width row (curPixel + 1)
      let upper ← getPixel width seed curPixel
      if cachePixel ≠ nextPixel ∧ cachePixel ≠ upper then some (.inl (curPixel, nextPixel))
      else some (.inr (row, curPixel))) (width + 1)

/-- `pixelSource` for the first pixel of a command at `start`, and the cached
colour after it. -/
def source (cachedColor start pixel : Nat) : Option (Nat × Nat) :=
  if cachedColor = pixel then some (0x60, cachedColor)
  else do
    let ne ← getPixel width seed (start + 1)
    if ne = pixel then some (0x40, cachedColor)
    else if start > 0 then do
      let w ← getPixel width row (start - 1)
      if w = pixel then some (0x20, cachedColor) else some (0x00, pixel)
    else some (0x00, pixel)

end Scans

/-! ## Writing -/

def outputVLIBytesConsecutively (number : Nat) : Option (List UInt8) :=
  loop (fun s : Nat × List UInt8 =>
    let out := s.2 ++ [UInt8.ofNat (min s.1 255)]
    let out := if 255 = s.1 then out ++ [0] else out
    let number := s.1 - min s.1 255
    if number ≠ 0 then some (.inl (number, out)) else some (.inr out)) (number + 1) (number, [])

/-- The command byte: type, source, seed row copy and replacement counts. -/
def cmdByte (type pixelSource seedCopy replacementCount : Nat) : UInt8 :=
  UInt8.ofNat (type ||| pixelSource ||| (min 3 seedCopy <<< 3) ||| min 7 replacementCount)

def writeCommand (type pixelSource seedCopy replacementCount : Nat) : Option (List UInt8) := do
  let rest ← (if seedCopy ≥ 3 then outputVLIBytesConsecutively (seedCopy - 3) else some [])
  some (cmdByte type pixelSource seedCopy replacementCount :: rest)

section Output

variable (width : Nat) (seed row : Mem)

/-- The pixels of a literal that ends before `curPixel`, with the spill bytes;
`replacementCount` of `total` are left. -/
def literalPixels (curPixel total : Nat) : Nat → Option (List UInt8)
  | 0 => some []
  | replacementCount + 1 => do
    let upwardPixelCount := total - replacementCount
    let pixel ← getPixel width row (curPixel - (replacementCount + 1))
    let upper ← getPixel width seed (curPixel - (replacementCount + 1))
    let spill :=
      if ((upwardPixelCount : Int) - 8) % 255 = 0 then
        [UInt8.ofNat (min 255 (total - upwardPixelCount))]
      else []
    let rest ← literalPixels curPixel total replacementCount
    some (writePixel pixel upper ++ spill ++ rest)

def writeLiteral (pixelSource seedCopy curPixel replacementCount : Nat) :
    Option (List UInt8) := do
  check (replacementCount ≥ 1)
  let command ← writeCommand 0x00 pixelSource seedCopy (replacementCount - 1)
  let pixels ← literalPixels width seed row curPixel replacementCount
    (if 0x00 ≠ pixelSource then replacementCount - 1 else replacementCount)
  some (command ++ pixels)

def writeRLE (pixelSource seedCopy curPixel replacementCount : Nat) : Option (List UInt8) := do
  check (replacementCount ≥ 2)
  let command ← writeCommand 0x80 pixelSource seedCopy (replacementCount - 2)
  let pixel ← getPixel width row (curPixel - replacementCount)
  let upper ← getPixel width seed (curPixel - replacementCount)
  let pixelBytes := if 0x00 = pixelSource then writePixel pixel upper else []
  let rest ← (if replacementCount - 2 ≥ 7 then
    outputVLIBytesConsecutively (replacementCount - (7 + 2)) else some [])
  some (command ++ pixelBytes ++ rest)

/-! ## The main loop -/

structure Locals where
  row : Mem
  curPixel : Nat
  cachedColor : Nat
  out : List UInt8

/-- `while (curPixel <= lastPixel)`. -/
def again (width : Nat) (s : Locals) : Locals ⊕ Locals :=
  if s.curPixel ≤ width - 1 then .inl s else .inr s

/-- The last pixel of the row, which is a literal unless it is the seed row's. -/
def lastIter (realLastPixel seedCopy : Nat) (s : Locals) : Option (Locals ⊕ Locals) := do
  let row := put3Pixel s.row (width - 1) realLastPixel
  let upper ← getPixel width seed s.curPixel
  if upper = realLastPixel then some (.inr { s with row := row })
  else do
    let bytes ← writeLiteral width seed row 0x00 seedCopy (s.curPixel + 1) 1
    some (again width
      { s with row := row, curPixel := s.curPixel + 1, out := s.out ++ bytes })

/-- A run of equal pixels up to `curPixel`, which may take in the last pixel. -/
def runIter (realLastPixel seedCopy rleRun curPixel replacementCount : Nat) (s : Locals) :
    Option (Locals ⊕ Locals) := do
  let (pixelSource, cachedColor) ←
    source width seed s.row s.cachedColor (curPixel - replacementCount) rleRun
  if curPixel = width - 1 ∧ realLastPixel = rleRun then do
    let row := put3Pixel s.row (width - 1) realLastPixel
    let bytes ← writeRLE width seed row pixelSource seedCopy (curPixel + 1) (replacementCount + 1)
    some (again width ⟨row, curPixel + 1, cachedColor, s.out ++ bytes⟩)
  else do
    let bytes ← writeRLE width seed s.row pixelSource seedCopy curPixel replacementCount
    some (again width ⟨s.row, curPixel, cachedColor, s.out ++ bytes⟩)

/-- Literals from `s.curPixel` on. -/
def literalIter (realLastPixel seedCopy : Nat) (s : Locals) : Option (Locals ⊕ Locals) := do
  let tempPixel ← getPixel width s.row s.curPixel
  let nextPixel ← getPixel width s.row (s.curPixel + 1)
  let upper ← getPixel width seed s.curPixel
  check (tempPixel ≠ nextPixel)
  check (tempPixel ≠ upper)
  let (pixelSource, cachedColor) ←
    source width seed s.row s.cachedColor s.curPixel tempPixel
  let (row, curPixel) ← literalScan width seed s.row realLastPixel (s.curPixel, nextPixel)
  let replacementCount := curPixel - s.curPixel
  check (replacementCount > 0)
  let bytes ← writeLiteral width seed row pixelSource seedCopy curPixel replacementCount
  some (again width ⟨row, curPixel, cachedColor, s.out ++ bytes⟩)

/-- One iteration of the main loop; `.inr` leaves it. -/
def iter (realLastPixel : Nat) (s : Locals) : Option (Locals ⊕ Locals) := do
  let curPixel ← seedScan width seed s.row s.curPixel
  let seedCopy := curPixel - s.curPixel
  check (curPixel ≤ width - 1)
  let s := { s with curPixel := curPixel }
  if curPixel = width - 1 then lastIter width seed realLastPixel seedCopy s
  else do
    check (curPixel < width - 1)
    let rleRun ← getPixel width s.row curPixel
    let stop ← runScan width s.row rleRun (curPixel + 1)
    -- the pixels equal to the first, which is not counted
    let replacementCount := stop - 1 - curPixel
    if replacementCount > 0 then
      runIter width seed realLastPixel seedCopy rleRun stop (replacementCount + 1) s
    else do
      check (stop - 1 ≠ width - 1)
      literalIter width seed realLastPixel seedCopy s

/-- The compression of a row of `width` pixels: the row afterwards, and the bytes. -/
def compress : Option (Mem × List UInt8) := do
  let realLastPixel ← getPixel width row (width - 1)
  let marked ← placeSentinel width seed row
  let s ← loop (iter width seed realLastPixel) (width + 1) ⟨marked, 0, kWhite, []⟩
  some (s.row, s.out)

end Output

/-! ## The compressor -/

/-- `Mode10::Mode10`: `heap` is what the fresh seed row held. -/
def new (planeSize : Nat) (heap : Mem) (myplane : ColorType) : Compressor where
  compressBuf := []
  seedRow := memset heap 0xFF planeSize
  compressedsize := 0
  inputsize := planeSize
  seeded := false
  iRastersReady := 0
  myplane := myplane

/-- `Mode10::Flush`. -/
def flush (c : Compressor) : Compressor :=
  if ¬ c.seeded then c
  else { c with
    compressedsize := 0
    iRastersReady := 0
    seeded := false
    seedRow := memset c.seedRow 0xFF c.inputsize }

/-- What `Process` leaves: the compressor, the raster of the caller, its result. -/
structure Result where
  compressor : Compressor
  input : Option RasterData
  ready : Bool

/-- `Mode10::Process`. -/
def process (c : Compressor) (input : Option RasterData) : Option Result :=
  match input with
  | none => some ⟨flush c, none, false⟩
  | some raster =>
    if raster.rasterdata .color = none ∧ raster.rasterdata .black = none then
      some ⟨flush c, input, false⟩
    else if c.myplane = .black ∨ raster.rasterdata .color = none then
      some ⟨{ c with iRastersReady := 1, compressedsize := 0 }, input, true⟩
    else do
      let data ← raster.rasterdata c.myplane
      let size := raster.rastersize c.myplane
      check (size ≥ 3)
      check (size % 3 = 0)
      let (row, out) ← compress (size / 3) c.seedRow data
      some
        { compressor := { c with
            compressBuf := out
            compressedsize := out.length
            seedRow := blit c.seedRow 0 row size
            seeded := true
            iRastersReady := 1 }
          input := some { raster with
            rasterdata := fun p => if p = c.myplane then some row else raster.rasterdata p }
          ready := true }

/-! ## The printer's side -/

def undelta (a field : Nat) : Nat := if field < 16 then a + field else a + field - 32

/-- A new pixel below `upper`. -/
def readPixel (upper : Nat) : List UInt8 → Option (Nat × List UInt8)
  | b₁ :: b₂ :: bs =>
    if b₁.toNat ≥ 128 then
      let delta := b₁.toNat * 256 + b₂.toNat
      some (undelta (getRed upper) (delta / 1024 % 32) * 65536
        + undelta (getGreen upper) (delta / 32 % 32) * 256
        + undelta (getBlue upper / 2) (delta % 32) * 2, bs)
    else
      match bs with
      | b₃ :: bs => some ((b₁.toNat * 65536 + b₂.toNat * 256 + b₃.toNat) * 2, bs)
      | [] => none
  | _ => none

/-- Literals after the first: `quota` of them up to the next spill byte, if
`spill` says that there is one, and otherwise up to the end. -/
def readLiterals (seed : List Nat) :
    Nat → Nat → Bool → List Nat → List UInt8 → Option (List Nat × List UInt8)
  | _, 0, false, row, bs => some (row, bs)
  | 0, _, _, _, _ => none
  | fuel + 1, 0, true, row, bs =>
    match bs with
    | [] => none
    | v :: bs => readLiterals seed fuel v.toNat (v = 255) row bs
  | fuel + 1, quota + 1, spill, row, bs => do
    let upper ← seed[row.length]?
    let (pixel, bs) ← readPixel upper bs
    readLiterals seed fuel quota spill (row ++ [pixel]) bs

structure Printer where
  row : List Nat
  cached : Nat

/-- The first pixel of a command after `row`, and the cached colour after it. -/
def readSource (seed row : List Nat) (cached pixelSource : Nat) (bs : List UInt8) :
    Option (Nat × Nat × List UInt8) :=
  if pixelSource = 0 then do
    let upper ← seed[row.length]?
    let (pixel, bs) ← readPixel upper bs
    some (pixel, pixel, bs)
  else if pixelSource = 1 then do
    let w ← row.getLast?
    some (w, cached, bs)
  else if pixelSource = 2 then do
    let ne ← seed[row.length + 1]?
    some (ne, cached, bs)
  else some (cached, cached, bs)

/-- The rest of a command after its first pixel: literals, or the same pixel. -/
def replace (seed : List Nat) (type field : Nat) (row : List Nat) (pixel cached : Nat)
    (bs : List UInt8) : Option (Printer × List UInt8) :=
  if type = 0 then do
    let (row, bs) ← readLiterals seed (bs.length + 1) (if field < 7 then field else 7)
      (field = 7) (row ++ [pixel]) bs
    some (⟨row, cached⟩, bs)
  else do
    let (count, bs) ← readVliRest 7 field bs
    some (⟨row ++ List.replicate (count + 2) pixel, cached⟩, bs)

def decodeStep (seed : List Nat) : Step Printer UInt8
  | _, [] => none
  | p, b :: bs => do
    let (copy, bs) ← readVliRest 3 (b.toNat / 8 % 4) bs
    let row := p.row ++ (seed.drop p.row.length).take copy
    let (pixel, cached, bs) ← readSource seed row p.cached (b.toNat / 32 % 4) bs
    replace seed (b.toNat / 128) (b.toNat % 8) row pixel cached bs

def decodeRow (seed : List Nat) (bytes : List UInt8) : Option (List Nat) :=
  (decode (decodeStep seed) bytes.length ⟨[], kWhite⟩ bytes).map fun p =>
    p.row ++ seed.drop p.row.length

def decodeRows : List Nat → List (List UInt8) → Option (List (List Nat))
  | _, [] => some []
  | seed, bytes :: rest => do
    let row ← decodeRow seed bytes
    let rows ← decodeRows row rest
    some (row :: rows)

/-! ## Pixels under the mask -/

theorem land_kWhite (x : Nat) : x &&& kWhite = x % 2 ^ 24 / 2 * 2 := by
  have hmask : kWhite = (2 ^ 23 - 1) * 2 ^ 1 := by decide
  have hx : x % 2 ^ 24 / 2 * 2 = (x / 2 % 2 ^ 23) * 2 ^ 1 := by lia
  rw [hmask, hx, ← Nat.shiftLeft_eq, ← Nat.shiftLeft_eq]
  refine Nat.eq_of_testBit_eq fun i => ?_
  rw [Nat.testBit_and, Nat.testBit_shiftLeft, Nat.testBit_shiftLeft, Nat.testBit_two_pow_sub_one,
    Nat.testBit_mod_two_pow, Nat.testBit_div_two]
  cases i with
  | zero => simp
  | succ i => simp [Bool.and_comm]

theorem land_255 (x : Nat) : x &&& 0xFF = x % 256 := Nat.and_two_pow_sub_one_eq_mod x 8

theorem rgb_eq {r g b : Nat} (hg : g < 256) (hb : b < 256) :
    (r <<< 16) ||| ((g <<< 8) ||| b) = r * 65536 + g * 256 + b := by
  have hlow : (g <<< 8) ||| b = g * 256 + b := by
    rw [← Nat.shiftLeft_add_eq_or_of_lt (i := 8) hb g, Nat.shiftLeft_eq]
  rw [hlow, ← Nat.shiftLeft_add_eq_or_of_lt (i := 16) (by lia) r, Nat.shiftLeft_eq]
  lia

/-- A pixel as `getPixel` returns it. -/
def Masked (p : Nat) : Prop := p < 2 ^ 24 ∧ p % 2 = 0

theorem Masked.land_kWhite {p : Nat} (h : Masked p) : p &&& kWhite = p := by
  obtain ⟨hlt, heven⟩ := h
  rw [Mode10.land_kWhite]
  lia

theorem get3Pixel_masked (m : Mem) (i : Nat) : Masked (get3Pixel m i) := by
  unfold get3Pixel
  rw [Nat.and_comm, land_kWhite]
  constructor <;> lia

theorem get3Pixel_put3Pixel_self (m : Mem) (i p : Nat) :
    get3Pixel (put3Pixel m i p) i = p &&& kWhite := by
  have hr : put3Pixel m i p (3 * i) = UInt8.ofNat (((p &&& kWhite) >>> 16) &&& 0xFF) := if_pos rfl
  have hg : put3Pixel m i p (3 * i + 1) = UInt8.ofNat (((p &&& kWhite) >>> 8) &&& 0xFF) := by
    unfold put3Pixel
    rw [if_neg (by lia), if_pos rfl]
  have hb : put3Pixel m i p (3 * i + 2) = UInt8.ofNat ((p &&& kWhite) &&& 0xFF) := by
    unfold put3Pixel
    rw [if_neg (by lia), if_neg (by lia), if_pos rfl]
  unfold get3Pixel
  rw [hr, hg, hb, land_kWhite]
  generalize hq : p % 2 ^ 24 / 2 * 2 = q
  have hlt : q < 2 ^ 24 ∧ q % 2 = 0 := by lia
  simp only [land_255, Nat.shiftRight_eq_div_pow, UInt8.toNat_ofNat']
  rw [rgb_eq (by lia) (by lia), Nat.and_comm, land_kWhite]
  lia

theorem get3Pixel_put3Pixel_of_ne (m : Mem) {i j : Nat} (p : Nat) (h : j ≠ i) :
    get3Pixel (put3Pixel m i p) j = get3Pixel m j := by
  have hcell : ∀ k < 3, put3Pixel m i p (3 * j + k) = m (3 * j + k) := by
    intro k hk
    unfold put3Pixel
    rw [if_neg (by lia), if_neg (by lia), if_neg (by lia)]
  unfold get3Pixel
  rw [hcell 1 (by decide), hcell 2 (by decide)]
  have h0 := hcell 0 (by decide)
  rw [Nat.add_zero] at h0
  rw [h0]

theorem put3Pixel_of_not_mem (m : Mem) {i j : Nat} (p : Nat) (h : j < 3 * i ∨ 3 * i + 3 ≤ j) :
    put3Pixel m i p j = m j := by
  unfold put3Pixel
  rw [if_neg (by lia), if_neg (by lia), if_neg (by lia)]

theorem getPixel_of_lt {width : Nat} {m : Mem} {i : Nat} (h : i < width) :
    getPixel width m i = some (get3Pixel m i) := by
  rw [getPixel, check_pos h]
  rfl

theorem undelta_eq {a b : Nat} (hhigh : (b : Int) - a ≤ 15) (hlow : (b : Int) - a ≥ -16) :
    undelta a (((b : Int) - a) % 32).toNat = b := by
  unfold undelta
  split <;> lia

theorem shortDelta_fields {r g b : Nat} (hr : r < 32) (hg : g < 32) (hb : b < 32) :
    (r <<< 10) ||| (((g <<< 5) ||| b) ||| 0x8000) = 32768 + r * 1024 + g * 32 + b := by
  have hlow : (g <<< 5) ||| b = g * 32 + b := by
    rw [← Nat.shiftLeft_add_eq_or_of_lt (i := 5) hb g, Nat.shiftLeft_eq]
  have hmid : (r <<< 10) ||| (g * 32 + b) = r * 1024 + (g * 32 + b) := by
    rw [← Nat.shiftLeft_add_eq_or_of_lt (i := 10) (by lia) r, Nat.shiftLeft_eq]
  have hhigh : (1 <<< 15) ||| (r * 1024 + (g * 32 + b)) = 32768 + (r * 1024 + (g * 32 + b)) := by
    rw [← Nat.shiftLeft_add_eq_or_of_lt (i := 15) (by lia) 1]
    rfl
  rw [hlow, ← Nat.or_assoc, hmid, Nat.or_comm]
  exact hhigh.trans (by lia)

theorem readPixel_short {upper r g b : Nat} (hr : r < 32) (hg : g < 32) (hb : b < 32)
    (rest : List UInt8) :
    readPixel upper (UInt8.ofNat ((32768 + r * 1024 + g * 32 + b) >>> 8)
        :: UInt8.ofNat (32768 + r * 1024 + g * 32 + b) :: rest)
      = some (undelta (getRed upper) r * 65536 + undelta (getGreen upper) g * 256
          + undelta (getBlue upper / 2) b * 2, rest) := by
  have hhigh : (UInt8.ofNat ((32768 + r * 1024 + g * 32 + b) >>> 8)).toNat
      = 128 + r * 4 + g / 8 := by
    rw [UInt8.toNat_ofNat', Nat.shiftRight_eq_div_pow]
    lia
  have hlow : (UInt8.ofNat (32768 + r * 1024 + g * 32 + b)).toNat = g % 8 * 32 + b := by
    rw [UInt8.toNat_ofNat']
    lia
  simp only [readPixel, hhigh, hlow]
  rw [if_pos (by lia), show ((128 + r * 4 + g / 8) * 256 + (g % 8 * 32 + b)) / 1024 % 32 = r by lia,
    show ((128 + r * 4 + g / 8) * 256 + (g % 8 * 32 + b)) / 32 % 32 = g by lia,
    show ((128 + r * 4 + g / 8) * 256 + (g % 8 * 32 + b)) % 32 = b by lia]

theorem readPixel_long {upper pixel : Nat} (hp : Masked pixel) (rest : List UInt8) :
    readPixel upper (UInt8.ofNat (pixel >>> 1 >>> 16) :: UInt8.ofNat (pixel >>> 1 >>> 8)
        :: UInt8.ofNat (pixel >>> 1) :: rest)
      = some (pixel, rest) := by
  obtain ⟨hlt, heven⟩ := hp
  simp only [readPixel, Nat.shiftRight_eq_div_pow, UInt8.toNat_ofNat']
  rw [if_neg (by lia)]
  congr 2
  lia

/-- **Pixels round trip**: the printer reads a new pixel back. -/
theorem readPixel_writePixel {pixel upper : Nat} (hp : Masked pixel) (hu : Masked upper)
    (rest : List UInt8) :
    readPixel upper (writePixel pixel upper ++ rest) = some (pixel, rest) := by
  obtain ⟨hplt, hpeven⟩ := id hp
  obtain ⟨hult, hueven⟩ := hu
  have hred : ∀ x, getRed x = x / 65536 % 256 := fun x => by
    rw [getRed, land_255, Nat.shiftRight_eq_div_pow]
  have hgreen : ∀ x, getGreen x = x / 256 % 256 := fun x => by
    rw [getGreen, land_255, Nat.shiftRight_eq_div_pow]
  have hblue : ∀ x, getBlue x = x % 256 := fun x => by rw [getBlue, land_255]
  have hsplit : getRed pixel * 65536 + getGreen pixel * 256 + getBlue pixel / 2 * 2 = pixel := by
    rw [hred, hgreen, hblue]
    lia
  have hhalf : ((getBlue pixel : Int) - getBlue upper) / 2
      = ((getBlue pixel / 2 : Nat) : Int) - (getBlue upper / 2 : Nat) := by
    rw [hblue, hblue]
    lia
  unfold writePixel shortDelta
  dsimp only
  split
  · -- the deltas fit
    next hfit =>
    obtain ⟨hr1, hr2, hg1, hg2, hb1, hb2⟩ := hfit
    rw [shortDelta_fields (by lia) (by lia) (by lia), if_pos (by lia)]
    show readPixel upper (_ :: _ :: rest) = _
    rw [readPixel_short (by lia) (by lia) (by lia), undelta_eq hr1 hr2,
      undelta_eq hg1 hg2, hhalf, undelta_eq (by lia) (by lia), hsplit]
  · rw [if_neg (not_not_intro rfl)]
    exact readPixel_long hp rest

theorem writePixel_length (pixel upper : Nat) :
    2 ≤ (writePixel pixel upper).length ∧ (writePixel pixel upper).length ≤ 3 := by
  unfold writePixel
  dsimp only
  split
  · exact ⟨Nat.le_refl 2, Nat.le_succ 2⟩
  · exact ⟨Nat.le_succ 2, Nat.le_refl 3⟩

/-! ## Counts and command bytes -/

theorem outputVLIBytesConsecutively_eq (number : Nat) :
    outputVLIBytesConsecutively number = some (vli number) := by
  have hloop : Returns (outputVLIBytesConsecutively number) fun out => out = vli number := by
    refine Returns.loop (fun s : Nat × List UInt8 => s.2 ++ vli s.1 = vli number) Prod.fst ?_
      (number + 1) (number, []) rfl (Nat.lt_succ_self number)
    rintro ⟨k, out⟩ hI
    have hI : out ++ vli k = vli number := hI
    dsimp only
    rcases Nat.lt_trichotomy k 255 with hlt | rfl | hgt
    · rw [Nat.min_eq_left (Nat.le_of_lt hlt), if_neg (Nat.ne_of_gt hlt), Nat.sub_self,
        if_neg (not_not_intro rfl)]
      rw [vli_of_lt hlt] at hI
      exact Returns.pure hI
    · refine Returns.pure ?_
      rw [← hI]
      simp [vli]
    · obtain ⟨k, rfl⟩ := Nat.exists_eq_add_of_le' (Nat.le_of_lt hgt)
      rw [Nat.min_eq_right (Nat.le_of_lt hgt), if_neg (Nat.ne_of_lt hgt), Nat.add_sub_cancel,
        if_pos (by omega)]
      rw [vli_add_255] at hI
      refine Returns.pure ⟨?_, Nat.lt_add_of_pos_right (by decide)⟩
      show (out ++ [255]) ++ vli k = vli number
      rw [List.append_assoc]
      exact hI
  obtain ⟨out, hout, rfl⟩ := hloop
  exact hout

def commandBytes (type pixelSource seedCopy replacementCount : Nat) : List UInt8 :=
  cmdByte type pixelSource seedCopy replacementCount :: vliRest 3 seedCopy

theorem writeCommand_eq (type pixelSource seedCopy replacementCount : Nat) :
    writeCommand type pixelSource seedCopy replacementCount
      = some (commandBytes type pixelSource seedCopy replacementCount) := by
  unfold writeCommand commandBytes
  by_cases h : seedCopy ≥ 3
  · rw [if_pos h, outputVLIBytesConsecutively_eq, vliRest_of_le h]
    rfl
  · rw [if_neg h, vliRest_of_lt (Nat.lt_of_not_le h)]
    rfl

theorem cmdByte_fields {t k : Nat} (ht : t < 2) (hk : k < 4) (seedCopy replacementCount : Nat) :
    let b := (cmdByte (128 * t) (32 * k) seedCopy replacementCount).toNat
    b / 128 = t ∧ b / 32 % 4 = k ∧ b / 8 % 4 = min seedCopy 3 ∧
      b % 8 = min replacementCount 7 := by
  have hall : ∀ t < 2, ∀ k < 4, ∀ c < 4, ∀ r < 8,
      let b := (UInt8.ofNat ((128 * t) ||| (32 * k) ||| (c <<< 3) ||| r)).toNat
      b / 128 = t ∧ b / 32 % 4 = k ∧ b / 8 % 4 = c ∧ b % 8 = r := by
    decide +kernel
  rw [Nat.min_comm seedCopy 3, Nat.min_comm replacementCount 7]
  exact hall t ht k hk _ (by lia) _ (by lia)

/-! ## Literals -/

/-- What the printer knows before literal `upward` of `total`: `quota` more come
up to the next spill byte, which follows the literals 8, 263 and so on, or up to
the end if there is none. -/
def Quota (total upward quota : Nat) (spill : Bool) : Prop :=
  if spill then
    1 ≤ quota ∧ quota ≤ 255 ∧ upward + quota ≤ total + 1 ∧ (upward + quota + 246) % 255 = 0
  else quota = total + 1 - upward ∧ ∀ i, upward ≤ i → i ≤ total → ((i : Int) - 8) % 255 ≠ 0

theorem quota_field (total : Nat) (h : 1 ≤ total) :
    Quota total 2 (if min (total - 1) 7 < 7 then min (total - 1) 7 else 7)
      (min (total - 1) 7 = 7) := by
  unfold Quota
  by_cases hsmall : min (total - 1) 7 < 7
  · rw [if_pos hsmall, decide_eq_false (by lia), if_neg Bool.false_ne_true]
    constructor
    · lia
    · intro i hi hit
      lia
  · rw [if_neg hsmall, decide_eq_true (by lia), if_pos rfl]
    refine ⟨by decide, by decide, by lia, by decide⟩

theorem quota_spill (total upward : Nat) (hspill : ((upward : Int) - 8) % 255 = 0) :
    let v := UInt8.ofNat (min 255 (total - upward))
    Quota total (upward + 1) v.toNat (v = 255) := by
  dsimp only
  unfold Quota
  by_cases hmore : 255 ≤ total - upward
  · rw [Nat.min_eq_left hmore, if_pos (by decide)]
    refine ⟨by decide, by decide, ?_, ?_⟩
    · show upward + 1 + 255 ≤ total + 1
      lia
    · show (upward + 1 + 255 + 246) % 255 = 0
      lia
  · have hval : (UInt8.ofNat (min 255 (total - upward))).toNat = total - upward := by
      rw [UInt8.toNat_ofNat']
      lia
    have hne : UInt8.ofNat (min 255 (total - upward)) ≠ 255 := by
      intro he
      rw [he] at hval
      have : (255 : UInt8).toNat = 255 := rfl
      lia
    rw [decide_eq_false hne, if_neg Bool.false_ne_true, hval]
    constructor
    · lia
    · intro i hi hit
      lia

theorem Quota.next {total upward quota : Nat} {spill : Bool} (h : Quota total upward quota spill)
    (hle : upward ≤ total) (hnone : ((upward : Int) - 8) % 255 ≠ 0) :
    ∃ quota', quota = quota' + 1 ∧ Quota total (upward + 1) quota' spill := by
  cases spill with
  | false =>
    obtain ⟨hq, hrest⟩ := h
    exact ⟨total - upward, by lia, by lia, fun i hi => hrest i (by lia)⟩
  | true =>
    obtain ⟨hq1, hq2, hend, hmod⟩ := h
    obtain ⟨quota, rfl⟩ := Nat.exists_eq_add_of_le' hq1
    refine ⟨quota, rfl, ?_⟩
    unfold Quota
    rw [if_pos rfl]
    refine ⟨?_, ?_, ?_, ?_⟩ <;> lia

theorem Quota.last {total upward quota : Nat} {spill : Bool} (h : Quota total upward quota spill)
    (hle : upward ≤ total) (hspill : ((upward : Int) - 8) % 255 = 0) :
    quota = 1 ∧ spill = true := by
  cases spill with
  | false => exact absurd hspill (h.2 upward (Nat.le_refl _) hle)
  | true =>
    obtain ⟨hq1, hq2, hend, hmod⟩ := h
    exact ⟨by lia, rfl⟩

section Row

variable {width : Nat} {seed row : Mem} {P : Nat → Nat}

theorem readLiterals_pixel {pos : Nat} (hpos : pos < width) (hmask : Masked (P pos))
    (fuel quota : Nat) (spill : Bool) (bs : List UInt8) :
    readLiterals (slice (get3Pixel seed) 0 width) (fuel + 1) (quota + 1) spill (slice P 0 pos)
        (writePixel (P pos) (get3Pixel seed pos) ++ bs)
      = readLiterals (slice (get3Pixel seed) 0 width) fuel quota spill (slice P 0 (pos + 1)) bs := by
  rw [readLiterals, slice_length, slice_getElem? _ _ hpos, Nat.zero_add]
  simp only [Option.bind_eq_bind, Option.bind_some]
  rw [readPixel_writePixel hmask (get3Pixel_masked _ _)]
  simp only [Option.bind_some]
  rw [slice_concat, Nat.zero_add]

theorem literalPixels_spec {curPixel : Nat} (total : Nat) (hcur : curPixel ≤ width)
    (hrow : ∀ i < curPixel, get3Pixel row i = P i) (count : Nat) (hcount : count ≤ curPixel)
    (htotal : count ≤ total) :
    Returns (literalPixels width seed row curPixel total count) fun bytes =>
      bytes.length ≤ 3 * count + min count (total - 7) ∧
      ∀ quota spill rest fuel, Quota total (total + 1 - count) quota spill →
        bytes.length ≤ fuel →
        readLiterals (slice (get3Pixel seed) 0 width) fuel quota spill
            (slice P 0 (curPixel - count)) (bytes ++ rest)
          = some (slice P 0 curPixel, rest) := by
  induction count with
  | zero =>
    refine Returns.pure ⟨Nat.zero_le _, ?_⟩
    intro quota spill rest fuel hquota _
    cases spill with
    | false =>
      obtain ⟨hq, -⟩ := hquota
      have hq : quota = 0 := by lia
      subst hq
      cases fuel <;> rfl
    | true =>
      obtain ⟨hq, -, hend, -⟩ := hquota
      lia
  | succ count ih =>
    obtain ⟨tail, htail, hsize, hread⟩ := ih (by lia) (by lia)
    obtain ⟨pos, rfl⟩ := Nat.exists_eq_add_of_le' hcount
    have hpos : pos + (count + 1) - (count + 1) = pos := Nat.add_sub_cancel ..
    have hnext : pos + (count + 1) - count = pos + 1 := by lia
    have hup : total + 1 - (count + 1) = total - count := by lia
    have hup' : total + 1 - count = total - count + 1 := by lia
    have hmask : Masked (P pos) := by
      rw [← hrow pos (by lia)]
      exact get3Pixel_masked _ _
    obtain ⟨hlow, hhigh⟩ := writePixel_length (P pos) (get3Pixel seed pos)
    rw [hnext] at hread
    rw [literalPixels, hpos, getPixel_of_lt (by lia), getPixel_of_lt (by lia), htail,
      hrow pos (by lia), hup]
    simp only [Option.bind_eq_bind, Option.bind_some]
    by_cases hspill : (((total - count : Nat) : Int) - 8) % 255 = 0
    · rw [if_pos hspill]
      refine Returns.pure ⟨?_, ?_⟩
      · simp only [List.length_append, List.length_singleton]
        lia
      · intro quota spill rest fuel hquota hfuel
        simp only [List.length_append, List.length_singleton] at hfuel
        obtain ⟨fuel, rfl⟩ := Nat.exists_eq_add_of_le' (by lia : 2 ≤ fuel)
        obtain ⟨rfl, rfl⟩ := hquota.last (by lia) hspill
        have hnew := quota_spill total (total - count) hspill
        rw [← hup'] at hnew
        rw [List.append_assoc, List.append_assoc, readLiterals_pixel (by lia) hmask,
          List.singleton_append, readLiterals]
        exact hread _ _ rest fuel hnew (by lia)
    · rw [if_neg hspill, List.append_nil]
      refine Returns.pure ⟨?_, ?_⟩
      · rw [List.length_append]
        lia
      · intro quota spill rest fuel hquota hfuel
        rw [List.length_append] at hfuel
        obtain ⟨fuel, rfl⟩ := Nat.exists_eq_add_of_le' (by lia : 1 ≤ fuel)
        obtain ⟨quota, rfl, hnew⟩ := hquota.next (by lia) hspill
        rw [← hup'] at hnew
        rw [List.append_assoc, readLiterals_pixel (by lia) hmask]
        exact hread _ _ rest fuel hnew (by lia)

/-! ## Commands -/

def newPixel (pixelSource pixel upper : Nat) : List UInt8 :=
  if 0x00 = pixelSource then writePixel pixel upper else []

theorem newPixel_length (pixelSource pixel upper : Nat) :
    (newPixel pixelSource pixel upper).length ≤ 3 := by
  unfold newPixel
  split
  · exact (writePixel_length pixel upper).2
  · exact Nat.zero_le 3

/-- The printer finds the first pixel of a command at `start`, and its cached
colour goes from `cached` to `cached'`. -/
structure Found (width : Nat) (seed : Mem) (P : Nat → Nat) (start cached : Nat)
    (pixelSource cached' : Nat) : Prop where
  source : ∃ k < 4, pixelSource = 32 * k
  read : ∀ rest, readSource (slice (get3Pixel seed) 0 width) (slice P 0 start) cached
    (pixelSource / 32) (newPixel pixelSource (P start) (get3Pixel seed start) ++ rest)
      = some (P start, cached', rest)

theorem found_new {start cached : Nat} (hstart : start < width) (hmask : Masked (P start)) :
    Found width seed P start cached 0x00 (P start) where
  source := ⟨0, by decide, rfl⟩
  read rest := by
    rw [newPixel, if_pos rfl, readSource, if_pos rfl, slice_length,
      slice_getElem? _ _ hstart, Nat.zero_add]
    simp only [Option.bind_eq_bind, Option.bind_some]
    rw [readPixel_writePixel hmask (get3Pixel_masked _ _)]
    rfl

theorem found_old {start cached k : Nat} (hk : 0 < k ∧ k < 4)
    (hread : ∀ rest, readSource (slice (get3Pixel seed) 0 width) (slice P 0 start) cached k rest
      = some (P start, cached, rest)) :
    Found width seed P start cached (32 * k) cached where
  source := ⟨k, hk.2, rfl⟩
  read rest := by
    rw [newPixel, if_neg (by omega), Nat.mul_div_cancel_left k (by decide)]
    exact hread rest

theorem source_spec {start cached : Nat} (hstart : start + 1 < width)
    (hrow : ∀ i ≤ start, get3Pixel row i = P i) :
    Returns (source width seed row cached start (P start)) fun r =>
      Found width seed P start cached r.1 r.2 := by
  have hmask : Masked (P start) := by
    rw [← hrow start (Nat.le_refl _)]
    exact get3Pixel_masked _ _
  have hnew : Found width seed P start cached 0x00 (P start) := found_new (by lia) hmask
  unfold source
  refine Returns.ite (fun hcached => Returns.pure (found_old (k := 3) (by decide) ?_))
    (fun _ => ?_)
  · intro rest
    rw [readSource, if_neg (by decide), if_neg (by decide), if_neg (by decide), hcached]
  rw [getPixel_of_lt hstart]
  simp only [Option.bind_eq_bind, Option.bind_some]
  refine Returns.ite (fun hne => Returns.pure (found_old (k := 2) (by decide) ?_)) (fun _ => ?_)
  · intro rest
    rw [readSource, if_neg (by decide), if_neg (by decide), if_pos rfl, slice_length,
      slice_getElem? _ _ hstart, Nat.zero_add, hne]
    rfl
  refine Returns.ite (fun hpos => ?_) (fun _ => Returns.pure hnew)
  rw [getPixel_of_lt (by lia), hrow _ (Nat.sub_le start 1)]
  simp only [Option.bind_some]
  refine Returns.ite (fun hw => Returns.pure (found_old (k := 1) (by decide) ?_))
    (fun _ => Returns.pure hnew)
  intro rest
  obtain ⟨j, rfl⟩ := Nat.exists_eq_add_of_le' hpos
  have hlast : (slice P 0 (j + 1)).getLast? = some (P j) := by
    rw [slice_concat, List.getLast?_append, Nat.zero_add]
    rfl
  rw [Nat.add_sub_cancel] at hw
  rw [readSource, if_neg (by decide), if_pos rfl, hlast, hw]
  rfl

theorem commandBytes_length (type pixelSource seedCopy replacementCount : Nat) :
    (commandBytes type pixelSource seedCopy replacementCount).length ≤ 1 + seedCopy := by
  have hrest := vliRest_length_le 3 seedCopy
  unfold commandBytes
  rw [List.length_cons]
  lia

/-- What a command does to the printer, and that it costs at most four bytes per
pixel. -/
structure Command (width : Nat) (seed : Mem) (P : Nat → Nat) (p cached q cached' : Nat)
    (bytes : List UInt8) : Prop where
  ne_nil : bytes ≠ []
  step : ∀ rest, decodeStep (slice (get3Pixel seed) 0 width) ⟨slice P 0 p, cached⟩ (bytes ++ rest)
    = some (⟨slice P 0 q, cached'⟩, rest)
  size : bytes.length ≤ 4 * (q - p)

variable {p copy cached cached' pixelSource : Nat}

theorem decodeStep_found {t : Nat} (ht : t < 2) (hfit : p + copy ≤ width)
    (heq : ∀ j < copy, get3Pixel seed (p + j) = P (p + j))
    (hfound : Found width seed P (p + copy) cached pixelSource cached') (count : Nat)
    (rest : List UInt8) :
    decodeStep (slice (get3Pixel seed) 0 width) ⟨slice P 0 p, cached⟩
        (commandBytes (128 * t) pixelSource copy count
          ++ (newPixel pixelSource (P (p + copy)) (get3Pixel seed (p + copy)) ++ rest))
      = replace (slice (get3Pixel seed) 0 width) t (min count 7) (slice P 0 (p + copy))
          (P (p + copy)) cached' rest := by
  obtain ⟨k, hk, hsource⟩ := hfound.source
  obtain ⟨htype, hfield, hcopy, hcount⟩ := cmdByte_fields ht hk copy count
  have hrow : slice P 0 p ++ ((slice (get3Pixel seed) 0 width).drop p).take copy
      = slice P 0 (p + copy) := by
    rw [take_drop_slice _ hfit, slice_add P 0 p copy, Nat.zero_add, slice_congr heq]
  have hread := hfound.read rest
  subst hsource
  rw [Nat.mul_div_cancel_left k (by decide)] at hread
  unfold commandBytes
  rw [List.cons_append, decodeStep, hcopy, readVliRest_vliRest]
  simp only [Option.bind_eq_bind, Option.bind_some, slice_length]
  rw [hrow, hfield, hread, htype, hcount]
  rfl

theorem writeLiteral_spec (count : Nat) (hcount : 1 ≤ count) (hfit : p + copy + count ≤ width)
    (heq : ∀ j < copy, get3Pixel seed (p + j) = P (p + j))
    (hrow : ∀ i < p + copy + count, get3Pixel row i = P i)
    (hfound : Found width seed P (p + copy) cached pixelSource cached') :
    Returns (writeLiteral width seed row pixelSource copy (p + copy + count) count)
      (Command width seed P p cached (p + copy + count) cached') := by
  obtain ⟨n, rfl⟩ := Nat.exists_eq_add_of_le' hcount
  have hstart : p + copy + (n + 1) - (n + 1) = p + copy := Nat.add_sub_cancel ..
  have hsecond : p + copy + (n + 1) - n = p + copy + 1 := by lia
  -- the literals after the first
  obtain ⟨tail, htail, hsize, hread⟩ :=
    literalPixels_spec (n + 1) hfit hrow n (by lia) (Nat.le_succ n)
  rw [hsecond] at hread
  -- a new first pixel is written by the same loop
  have hpixels : literalPixels width seed row (p + copy + (n + 1)) (n + 1)
      (if 0x00 ≠ pixelSource then n + 1 - 1 else n + 1)
        = some (newPixel pixelSource (P (p + copy)) (get3Pixel seed (p + copy)) ++ tail) := by
    unfold newPixel
    by_cases hnew : 0x00 = pixelSource
    · rw [if_neg (not_not_intro hnew), if_pos hnew, literalPixels, hstart,
        getPixel_of_lt (by lia), getPixel_of_lt (by lia), htail, hrow _ (by lia)]
      simp only [Option.bind_eq_bind, Option.bind_some]
      rw [if_neg (by lia), List.append_nil]
    · rw [if_pos hnew, if_neg hnew, Nat.add_sub_cancel, htail]
      rfl
  have hpixel := newPixel_length pixelSource (P (p + copy)) (get3Pixel seed (p + copy))
  have hcommand := commandBytes_length 0 pixelSource copy (n + 1 - 1)
  unfold writeLiteral
  refine Returns.check hcount ?_
  rw [writeCommand_eq]
  simp only [Option.bind_eq_bind, Option.bind_some]
  rw [hpixels]
  refine Returns.pure ⟨by simp [commandBytes], fun rest => ?_, ?_⟩
  · have hquota := quota_field (n + 1) (Nat.le_add_left 1 n)
    have hnext : slice P 0 (p + copy) ++ [P (p + copy)] = slice P 0 (p + copy + 1) := by
      rw [slice_concat, Nat.zero_add]
    have htwo : n + 1 + 1 - n = 2 := by lia
    rw [htwo] at hread
    rw [List.append_assoc, List.append_assoc]
    rw [decodeStep_found (t := 0) (by decide) (by lia) heq hfound, replace, if_pos rfl, hnext,
      hread _ _ rest _ hquota (by rw [List.length_append]; lia)]
    rfl
  · simp only [List.length_append]
    lia

theorem writeRLE_spec (count : Nat) (hcount : 2 ≤ count) (hfit : p + copy + count ≤ width)
    (heq : ∀ j < copy, get3Pixel seed (p + j) = P (p + j))
    (hrow : get3Pixel row (p + copy) = P (p + copy))
    (hrun : ∀ j < count, P (p + copy + j) = P (p + copy))
    (hfound : Found width seed P (p + copy) cached pixelSource cached') :
    Returns (writeRLE width seed row pixelSource copy (p + copy + count) count)
      (Command width seed P p cached (p + copy + count) cached') := by
  obtain ⟨n, rfl⟩ := Nat.exists_eq_add_of_le' hcount
  have hstart : p + copy + (n + 2) - (n + 2) = p + copy := Nat.add_sub_cancel ..
  have hrest : (if n + 2 - 2 ≥ 7 then outputVLIBytesConsecutively (n + 2 - (7 + 2)) else some [])
      = some (vliRest 7 n) := by
    rw [Nat.add_sub_cancel]
    by_cases h : n ≥ 7
    · rw [if_pos h, outputVLIBytesConsecutively_eq, vliRest_of_le h,
        show n + 2 - (7 + 2) = n - 7 by lia]
    · rw [if_neg h, vliRest_of_lt (Nat.lt_of_not_le h)]
  have hpixel := newPixel_length pixelSource (P (p + copy)) (get3Pixel seed (p + copy))
  have hcommand := commandBytes_length 0x80 pixelSource copy (n + 2 - 2)
  have hvli := vliRest_length_le 7 n
  unfold writeRLE
  refine Returns.check hcount ?_
  rw [writeCommand_eq, hstart, getPixel_of_lt (by lia), getPixel_of_lt (by lia), hrest, hrow]
  simp only [Option.bind_eq_bind, Option.bind_some]
  show Returns (some (_ ++ newPixel pixelSource (P (p + copy)) (get3Pixel seed (p + copy)) ++ _)) _
  refine Returns.pure ⟨by simp [commandBytes], fun rest => ?_, ?_⟩
  · have hpixels : slice P 0 (p + copy) ++ List.replicate (n + 2) (P (p + copy))
        = slice P 0 (p + copy + (n + 2)) := by
      rw [slice_add P 0 (p + copy), Nat.zero_add, slice_eq_replicate hrun]
    rw [List.append_assoc, List.append_assoc,
      decodeStep_found (t := 1) (by decide) (by lia) heq hfound, Nat.add_sub_cancel, replace,
      if_neg (by decide), readVliRest_vliRest]
    simp only [Option.bind_eq_bind, Option.bind_some]
    rw [hpixels]
  · simp only [List.length_append]
    lia

end Row

/-! ## The sentinel -/

/-- Whether the sentinel that a row ends up with differs from the pixel to its
left and from the seed row's last. -/
def SentinelOk (width : Nat) (seed row : Mem) : Prop :=
  ∀ marked, placeSentinel width seed row = some marked →
    get3Pixel marked (width - 1) ≠ get3Pixel row (width - 2) ∧
    get3Pixel marked (width - 1) ≠ get3Pixel seed (width - 1)

/-- `row'` is `row` up to its last pixel. -/
structure SameButLast (width : Nat) (row row' : Mem) : Prop where
  pixels : ∀ i < width - 1, get3Pixel row' i = get3Pixel row i
  bytes : ∀ j, j < 3 * (width - 1) ∨ 3 * width ≤ j → row' j = row j

structure Marked (width : Nat) (seed row marked : Mem) : Prop extends
    SameButLast width row marked where
  two_le : 2 ≤ width
  left : get3Pixel marked (width - 1) ≠ get3Pixel row (width - 2)
  upper : get3Pixel marked (width - 1) ≠ get3Pixel seed (width - 1)

/-- The row once its last pixel is put back. -/
structure Restored (width : Nat) (row row' : Mem) : Prop where
  pixels : ∀ i < width, get3Pixel row' i = get3Pixel row i
  bytes : ∀ j, j < 3 * (width - 1) ∨ 3 * width ≤ j → row' j = row j

section Row

variable {width : Nat} {seed row marked : Mem}

theorem SameButLast.put {m : Mem} (h : SameButLast width row m) (hwidth : 1 ≤ width)
    (pixel : Nat) : SameButLast width row (put3Pixel m (width - 1) pixel) where
  pixels i hi := by rw [get3Pixel_put3Pixel_of_ne m pixel (Nat.ne_of_lt hi), h.pixels i hi]
  bytes j hj := by rw [put3Pixel_of_not_mem m pixel (by lia), h.bytes j hj]

/-- The search for a sentinel ends after at most two steps, because each of the
two pixels it has to differ from rules out one value. -/
theorem placeSentinel_returns (hwidth : 2 ≤ width) (seed row : Mem) :
    Returns (placeSentinel width seed row) (SameButLast width row) := by
  have hreal : get3Pixel row (width - 1) < 2 ^ 24 := (get3Pixel_masked _ _).1
  have hleft : get3Pixel row (width - 1 - 1) < 2 ^ 24 := (get3Pixel_masked _ _).1
  have hupper : get3Pixel seed (width - 1) < 2 ^ 24 := (get3Pixel_masked _ _).1
  unfold placeSentinel
  dsimp only
  rw [getPixel_of_lt (by lia)]
  simp only [Option.bind_eq_bind, Option.bind_some]
  refine Returns.loop
    (fun s : Mem × Nat => SameButLast width row s.1 ∧ s.2 < 2 ^ 25)
    (fun s : Mem × Nat => (if s.2 ≤ get3Pixel row (width - 1 - 1) then 1 else 0)
      + if s.2 ≤ get3Pixel seed (width - 1) then 1 else 0) ?_ 3 _
    ⟨⟨fun _ _ => rfl, fun _ _ => rfl⟩, Nat.lt_of_lt_of_le hreal (by decide)⟩ ?_
  · rintro ⟨m, v⟩ ⟨hm, hv⟩
    have hm : SameButLast width row m := hm
    have hv : v < 2 ^ 25 := hv
    rw [getPixel_of_lt (by lia), getPixel_of_lt (by lia), hm.pixels _ (by lia)]
    refine Returns.ite (fun htaken => ?_) (fun _ => Returns.pure hm)
    -- the value taken is one of the two pixels, and the next is above it
    have htaken : get3Pixel row (width - 1 - 1) = v ∨ get3Pixel seed (width - 1) = v := htaken
    have hwrap : (v + 0x100) % 2 ^ 32 = v + 256 := by lia
    dsimp only
    rw [hwrap]
    refine Returns.pure ⟨⟨hm.put (by lia) _, ?_⟩, ?_⟩
    · show v + 256 < 2 ^ 25
      lia
    · show (if v + 256 ≤ get3Pixel row (width - 1 - 1) then 1 else 0)
        + (if v + 256 ≤ get3Pixel seed (width - 1) then 1 else 0)
        < (if v ≤ get3Pixel row (width - 1 - 1) then 1 else 0)
        + if v ≤ get3Pixel seed (width - 1) then 1 else 0
      rcases htaken with h | h <;> split <;> split <;> split <;> split <;> lia
  · show (if _ then 1 else 0) + (if _ then 1 else 0) < 3
    split <;> split <;> decide

theorem placeSentinel_spec (hwidth : 2 ≤ width) (hok : SentinelOk width seed row) :
    Returns (placeSentinel width seed row) (Marked width seed row) := by
  obtain ⟨marked, hmarked, hsame⟩ := placeSentinel_returns hwidth seed row
  obtain ⟨hleft, hupper⟩ := hok marked hmarked
  exact ⟨marked, hmarked, hsame, hwidth, hleft, hupper⟩

theorem Marked.restore (h : Marked width seed row marked) :
    Restored width row (put3Pixel marked (width - 1) (get3Pixel row (width - 1))) where
  pixels i hi := by
    by_cases hlast : i = width - 1
    · subst hlast
      rw [get3Pixel_put3Pixel_self, (get3Pixel_masked _ _).land_kWhite]
    · rw [get3Pixel_put3Pixel_of_ne _ _ hlast, h.pixels i (by lia)]
  bytes := (h.toSameButLast.put (Nat.le_trans (by decide) h.two_le) _).bytes

/-! ## The scans -/

theorem seedScan_spec (h : Marked width seed row marked) {p : Nat} (hp : p ≤ width - 1) :
    Returns (seedScan width seed marked p) fun q => p ≤ q ∧ q ≤ width - 1 ∧
      (∀ i, p ≤ i → i < q → get3Pixel seed i = get3Pixel row i) ∧
      get3Pixel seed q ≠ get3Pixel marked q := by
  have hwidth := h.two_le
  refine Returns.loop (fun q => p ≤ q ∧ q ≤ width - 1 ∧
      ∀ i, p ≤ i → i < q → get3Pixel seed i = get3Pixel row i) (fun q => width - q) ?_ _ _
    ⟨Nat.le_refl p, hp, fun i hi hip => absurd hip (Nat.not_lt.mpr hi)⟩
    (Nat.lt_succ_of_le (Nat.sub_le _ _))
  rintro q ⟨hpq, hq, heq⟩
  rw [getPixel_of_lt (by lia), getPixel_of_lt (by lia)]
  refine Returns.ite (fun hsame => ?_) (fun hdiff => Returns.pure ⟨hpq, hq, heq, hdiff⟩)
  have hlast : q ≠ width - 1 := by
    rintro rfl
    exact h.upper hsame.symm
  refine Returns.pure ⟨⟨by lia, by lia, fun i hi hiq => ?_⟩, by lia⟩
  rcases Nat.lt_succ_iff_lt_or_eq.mp hiq with hiq | rfl
  · exact heq i hi hiq
  · rw [hsame, h.pixels i (by lia)]

theorem runScan_spec (h : Marked width seed row marked) {p : Nat} (hp : p < width - 1) :
    Returns (runScan width marked (get3Pixel row p) (p + 1)) fun q => p < q ∧ q ≤ width - 1 ∧
      (∀ i, p ≤ i → i < q → get3Pixel row i = get3Pixel row p) ∧
      get3Pixel row p ≠ get3Pixel marked q := by
  have hwidth := h.two_le
  refine Returns.loop (fun q => p < q ∧ q ≤ width - 1 ∧
      ∀ i, p ≤ i → i < q → get3Pixel row i = get3Pixel row p) (fun q => width - q) ?_ _ _
    ⟨Nat.lt_succ_self p, hp, fun i hi hip => ?_⟩ (Nat.lt_succ_of_le (Nat.sub_le _ _))
  swap
  · rw [Nat.le_antisymm (Nat.le_of_lt_succ hip) hi]
  rintro q ⟨hpq, hq, hrun⟩
  rw [getPixel_of_lt (by lia)]
  refine Returns.ite (fun hsame => ?_) (fun hdiff => Returns.pure ⟨hpq, hq, hrun, hdiff⟩)
  have hlast : q ≠ width - 1 := by
    rintro rfl
    refine h.left ?_
    rw [← hsame, ← hrun (width - 2) (by lia) (by lia)]
  refine Returns.pure ⟨⟨by lia, by lia, fun i hi hiq => ?_⟩, by lia⟩
  rcases Nat.lt_succ_iff_lt_or_eq.mp hiq with hiq | rfl
  · exact hrun i hi hiq
  · rw [hsame, h.pixels i (by lia)]

theorem literalScan_spec (h : Marked width seed row marked) {p : Nat} (hp : p < width - 1) :
    Returns (literalScan width seed marked (get3Pixel row (width - 1))
        (p, get3Pixel marked (p + 1))) fun r => p < r.2 ∧
      ((r.2 ≤ width - 1 ∧ r.1 = marked) ∨
        (r.2 = width ∧ r.1 = put3Pixel marked (width - 1) (get3Pixel row (width - 1)))) := by
  have hwidth := h.two_le
  refine Returns.loop (fun s : Nat × Nat => p ≤ s.1 ∧ s.1 < width - 1)
    (fun s : Nat × Nat => width - s.1) ?_ _ _ ⟨Nat.le_refl p, hp⟩
    (Nat.lt_succ_of_le (Nat.sub_le _ _))
  rintro ⟨q, next⟩ ⟨hpq, hq⟩
  have hpq : p ≤ q := hpq
  have hq : q < width - 1 := hq
  refine Returns.ite (fun hlast => ?_) (fun hlast => ?_)
  · have hlast : q + 1 = width - 1 := hlast
    refine Returns.pure ⟨?_, .inr ⟨?_, rfl⟩⟩
    · show p < q + 1 + 1
      lia
    · show q + 1 + 1 = width
      lia
  have hlast : q + 1 ≠ width - 1 := hlast
  dsimp only
  rw [getPixel_of_lt (by lia), getPixel_of_lt (by lia)]
  refine Returns.ite (fun _ => ?_) (fun _ => ?_)
  · refine Returns.pure ⟨⟨?_, ?_⟩, ?_⟩
    · show p ≤ q + 1
      lia
    · show q + 1 < width - 1
      lia
    · show width - (q + 1) < width - q
      lia
  · refine Returns.pure ⟨?_, .inl ⟨?_, rfl⟩⟩
    · show p < q + 1
      lia
    · show q + 1 ≤ width - 1
      lia

/-! ## The main loop -/

def blank : Printer := ⟨[], kWhite⟩

/-- What the main loop keeps: the sentinel is in place, and the commands take the
printer to the pixel reached, with the cached colour of the compressor, at no
more than four bytes per pixel. -/
structure Inv (width : Nat) (seed row marked : Mem) (s : Locals) : Prop where
  marks : s.row = marked
  le : s.curPixel ≤ width - 1
  takes : Takes (decodeStep (slice (get3Pixel seed) 0 width)) blank s.out
    ⟨slice (get3Pixel row) 0 s.curPixel, s.cachedColor⟩
  size : s.out.length ≤ 4 * s.curPixel

/-- What it leaves: the row is put back, and the commands take the printer to a
pixel from which the row is its seed row. -/
structure Done (width : Nat) (seed row : Mem) (s : Locals) : Prop where
  restored : Restored width row s.row
  takes : ∃ p ≤ width, ∃ cached,
    Takes (decodeStep (slice (get3Pixel seed) 0 width)) blank s.out
      ⟨slice (get3Pixel row) 0 p, cached⟩ ∧
    ∀ i, p ≤ i → i < width → get3Pixel seed i = get3Pixel row i
  size : s.out.length ≤ 4 * width

/-- What an iteration that starts at `s` does. -/
def Goes (width : Nat) (seed row marked : Mem) (s : Locals) (r : Locals ⊕ Locals) : Prop :=
  Sum.elim (fun s' => Inv width seed row marked s' ∧ width - s'.curPixel < width - s.curPixel)
    (Done width seed row) r

theorem Inv.next {s : Locals} (h : Inv width seed row marked s) {q cached : Nat}
    {bytes : List UInt8} (hq : q ≤ width - 1) (hsq : s.curPixel < q)
    (hc : Command width seed (get3Pixel row) s.curPixel s.cachedColor q cached bytes) :
    Goes width seed row marked s (again width ⟨marked, q, cached, s.out ++ bytes⟩) := by
  have hsize := h.size
  have hbytes := hc.size
  rw [again, if_pos hq]
  refine ⟨⟨rfl, hq, h.takes.snoc hc.ne_nil hc.step, ?_⟩, ?_⟩
  · show (s.out ++ bytes).length ≤ 4 * q
    rw [List.length_append]
    lia
  · show width - q < width - s.curPixel
    lia

theorem Inv.finish {s : Locals} (h : Inv width seed row marked s)
    (hmarked : Marked width seed row marked) {cached c : Nat} {bytes : List UInt8}
    (hc : Command width seed (get3Pixel row) s.curPixel s.cachedColor width cached bytes) :
    Goes width seed row marked s (again width
      ⟨put3Pixel marked (width - 1) (get3Pixel row (width - 1)), width, c, s.out ++ bytes⟩) := by
  have hsize := h.size
  have hle := h.le
  have hbytes := hc.size
  have htwo := hmarked.two_le
  rw [again, if_neg (show ¬ width ≤ width - 1 by lia)]
  refine ⟨hmarked.restore, ⟨width, Nat.le_refl _, cached, h.takes.snoc hc.ne_nil hc.step,
    fun i hi hlt => absurd hlt (Nat.not_lt.mpr hi)⟩, ?_⟩
  show (s.out ++ bytes).length ≤ 4 * width
  rw [List.length_append]
  lia

theorem lastIter_spec {s : Locals} (h : Inv width seed row marked s)
    (hmarked : Marked width seed row marked)
    (heq : ∀ i, s.curPixel ≤ i → i < width - 1 → get3Pixel seed i = get3Pixel row i) :
    Returns (lastIter width seed (get3Pixel row (width - 1)) (width - 1 - s.curPixel)
      { s with curPixel := width - 1 }) (Goes width seed row marked s) := by
  have hle := h.le
  have htwo := hmarked.two_le
  have hback := hmarked.restore
  obtain ⟨k, hk⟩ := Nat.exists_eq_add_of_le hle
  unfold lastIter
  dsimp only
  rw [h.marks, getPixel_of_lt (by lia)]
  simp only [Option.bind_eq_bind, Option.bind_some]
  refine Returns.ite (fun hsame => ?_) (fun _ => ?_)
  · -- the rest of the row is the seed row's
    refine Returns.pure ⟨hback, ⟨s.curPixel, by lia, s.cachedColor, h.takes, ?_⟩, ?_⟩
    · intro i hi hlt
      rcases Nat.lt_or_eq_of_le (Nat.le_sub_one_of_lt hlt) with hlt | rfl
      · exact heq i hi hlt
      · exact hsame
    · exact Nat.le_trans h.size (Nat.mul_le_mul_left 4 (by lia))
  · have hfound : Found width seed (get3Pixel row) (s.curPixel + k) s.cachedColor 0x00
        (get3Pixel row (s.curPixel + k)) :=
      found_new (by lia) (get3Pixel_masked _ _)
    have hend : s.curPixel + k + 1 = width := by lia
    have hwrite := writeLiteral_spec 1 (Nat.le_refl 1) (by lia)
      (fun j hj => heq (s.curPixel + j) (by lia) (by lia))
      (fun i hi => hback.pixels i (by lia)) hfound
    obtain ⟨bytes, hbytes, hc⟩ := hwrite
    rw [hk, Nat.add_sub_cancel_left, ← hk]
    rw [hend] at hbytes hc
    rw [show width - 1 + 1 = width by lia, hbytes]
    exact Returns.pure (h.finish hmarked hc)

theorem runIter_spec {s : Locals} (h : Inv width seed row marked s)
    (hmarked : Marked width seed row marked) {start q : Nat} (hstart : s.curPixel ≤ start)
    (heq : ∀ i, s.curPixel ≤ i → i < start → get3Pixel seed i = get3Pixel row i)
    (hq : start + 2 ≤ q) (hlast : q ≤ width - 1)
    (hrun : ∀ i, start ≤ i → i < q → get3Pixel row i = get3Pixel row start) :
    Returns (runIter width seed (get3Pixel row (width - 1)) (start - s.curPixel)
      (get3Pixel row start) q (q - start) { s with curPixel := start })
      (Goes width seed row marked s) := by
  have htwo := hmarked.two_le
  obtain ⟨k, rfl⟩ := Nat.exists_eq_add_of_le hstart
  obtain ⟨n, rfl⟩ := Nat.exists_eq_add_of_le (Nat.le_trans (Nat.le_add_right _ 2) hq)
  unfold runIter
  dsimp only
  rw [h.marks, Nat.add_sub_cancel_left, Nat.add_sub_cancel_left, Nat.add_sub_cancel]
  refine Returns.bind (source_spec (P := get3Pixel row) (by lia)
    (fun i hi => hmarked.pixels i (by lia))) ?_
  rintro ⟨pixelSource, cached⟩ hfound
  have heq' : ∀ j < k, get3Pixel seed (s.curPixel + j) = get3Pixel row (s.curPixel + j) :=
    fun j hj => heq _ (by lia) (by lia)
  refine Returns.ite (fun hend => ?_) (fun _ => ?_)
  · -- the last pixel belongs to the run
    obtain ⟨hq', hreal⟩ := hend
    have hwidth : s.curPixel + k + (n + 1) = width := by lia
    have hwrite := writeRLE_spec (n + 1) (by lia) (by lia) heq'
      (hmarked.restore.pixels _ (by lia)) (fun j hj => ?_) hfound
    · obtain ⟨bytes, hbytes, hc⟩ := hwrite
      rw [hwidth] at hbytes hc
      rw [show s.curPixel + k + n + 1 = width by lia]
      dsimp only
      rw [hbytes]
      exact Returns.pure (h.finish hmarked hc)
    · rcases Nat.lt_succ_iff_lt_or_eq.mp hj with hj | rfl
      · exact hrun _ (by lia) (by lia)
      · rw [hq', hreal]
  · obtain ⟨bytes, hbytes, hc⟩ := writeRLE_spec n (by lia) (by lia) heq'
      (hmarked.pixels _ (by lia)) (fun j hj => hrun _ (by lia) (by lia)) hfound
    dsimp only
    rw [hbytes]
    exact Returns.pure (h.next hlast (by lia) hc)

theorem literalIter_spec {s : Locals} (h : Inv width seed row marked s)
    (hmarked : Marked width seed row marked) {start : Nat} (hstart : s.curPixel ≤ start)
    (heq : ∀ i, s.curPixel ≤ i → i < start → get3Pixel seed i = get3Pixel row i)
    (hlast : start < width - 1) (hseed : get3Pixel row start ≠ get3Pixel seed start)
    (hnext : get3Pixel row start ≠ get3Pixel marked (start + 1)) :
    Returns (literalIter width seed (get3Pixel row (width - 1)) (start - s.curPixel)
      { s with curPixel := start }) (Goes width seed row marked s) := by
  have htwo := hmarked.two_le
  obtain ⟨k, rfl⟩ := Nat.exists_eq_add_of_le hstart
  unfold literalIter
  dsimp only
  rw [h.marks, Nat.add_sub_cancel_left, getPixel_of_lt (by lia), getPixel_of_lt (by lia),
    getPixel_of_lt (by lia), hmarked.pixels _ hlast]
  simp only [Option.bind_eq_bind, Option.bind_some]
  refine Returns.check hnext (Returns.check hseed ?_)
  refine Returns.bind (source_spec (P := get3Pixel row) (by lia)
    (fun i hi => hmarked.pixels i (by lia))) ?_
  rintro ⟨pixelSource, cached⟩ hfound
  refine Returns.bind (literalScan_spec hmarked hlast) ?_
  rintro ⟨row', q⟩ hscan
  dsimp only at hscan hfound
  obtain ⟨hq, hcase⟩ := hscan
  obtain ⟨n, rfl⟩ := Nat.exists_eq_add_of_le (Nat.le_of_lt hq)
  have hn : n > 0 := by lia
  dsimp only
  rw [Nat.add_sub_cancel_left]
  refine Returns.check hn ?_
  have heq' : ∀ j < k, get3Pixel seed (s.curPixel + j) = get3Pixel row (s.curPixel + j) :=
    fun j hj => heq _ (by lia) (by lia)
  rcases hcase with ⟨hend, rfl⟩ | ⟨hend, rfl⟩
  · obtain ⟨bytes, hbytes, hc⟩ := writeLiteral_spec n hn (by lia) heq'
      (fun i hi => hmarked.pixels i (by lia)) hfound
    rw [hbytes]
    exact Returns.pure (h.next hend (by lia) hc)
  · obtain ⟨bytes, hbytes, hc⟩ := writeLiteral_spec n hn (by lia) heq'
      (fun i hi => hmarked.restore.pixels i (by lia)) hfound
    rw [hend] at hbytes hc ⊢
    rw [hbytes]
    exact Returns.pure (h.finish hmarked hc)

theorem iter_spec {s : Locals} (h : Inv width seed row marked s)
    (hmarked : Marked width seed row marked) :
    Returns (iter width seed (get3Pixel row (width - 1)) s) (Goes width seed row marked s) := by
  have htwo := hmarked.two_le
  obtain rfl := h.marks
  unfold iter
  refine Returns.bind (seedScan_spec hmarked h.le) ?_
  rintro start ⟨hstart, hle, heq, hseed⟩
  refine Returns.check hle ?_
  refine Returns.ite (fun hlast => ?_) (fun hlast => ?_)
  · subst hlast
    exact lastIter_spec h hmarked heq
  have hlt : start < width - 1 := Nat.lt_of_le_of_ne hle hlast
  rw [hmarked.pixels _ hlt] at hseed
  refine Returns.check hlt ?_
  dsimp only
  rw [getPixel_of_lt (by lia), hmarked.pixels _ hlt]
  simp only [Option.bind_eq_bind, Option.bind_some]
  refine Returns.bind (runScan_spec hmarked hlt) ?_
  rintro q ⟨hq, hqle, hrun, hdiff⟩
  refine Returns.ite (fun hcount => ?_) (fun hcount => ?_)
  · rw [show q - 1 - start + 1 = q - start by lia]
    exact runIter_spec h hmarked hstart heq (by lia) hqle hrun
  · have hq : q = start + 1 := by lia
    subst hq
    refine Returns.check (by lia) ?_
    exact literalIter_spec h hmarked hstart heq hlt (Ne.symm hseed) hdiff

structure Compressed (width : Nat) (seed row row' : Mem) (out : List UInt8) : Prop where
  restored : Restored width row row'
  decodes : decodeRow (slice (get3Pixel seed) 0 width) out = some (slice (get3Pixel row) 0 width)
  size : out.length ≤ 4 * width

theorem Done.compressed {s : Locals} (h : Done width seed row s) :
    Compressed width seed row s.row s.out where
  restored := h.restored
  size := h.size
  decodes := by
    obtain ⟨p, hp, cached, htakes, heq⟩ := h.takes
    have hrest : slice (get3Pixel seed) p (width - p) = slice (get3Pixel row) p (width - p) :=
      slice_congr fun j hj => heq (p + j) (Nat.le_add_right p j) (by lia)
    have hdecode := htakes.decode_eq (Nat.le_refl _)
    unfold blank at hdecode
    rw [decodeRow, hdecode, Option.map_some, slice_length, drop_slice _ hp, Nat.zero_add, hrest,
      slice_append_slice _ hp]

theorem compress_spec (hwidth : 2 ≤ width) (hok : SentinelOk width seed row) :
    Returns (compress width seed row) fun r => Compressed width seed row r.1 r.2 := by
  unfold compress
  rw [getPixel_of_lt (by omega)]
  simp only [Option.bind_eq_bind, Option.bind_some]
  refine Returns.bind (placeSentinel_spec hwidth hok) ?_
  intro marked hmarked
  have hinit : Inv width seed row marked ⟨marked, 0, kWhite, []⟩ :=
    ⟨rfl, Nat.zero_le _, .nil blank, Nat.le_refl 0⟩
  refine Returns.bind (P := Done width seed row) ?_ fun s hs => Returns.pure hs.compressed
  exact Returns.loop (Inv width seed row marked) (fun s : Locals => width - s.curPixel)
    (fun s hs => iter_spec hs hmarked) (width + 1) _ hinit
    (Nat.lt_succ_of_le (Nat.sub_le width 0))

end Row

/-! ## Rows one after another -/

structure Output where
  bytes : List UInt8
  row : Mem

/-- `Process` on one row of `width` pixels. -/
def processRow (width : Nat) (c : Compressor) (row : Mem) : Option (Compressor × Output) := do
  let r ← process c (some (.only c.myplane row (3 * width)))
  let raster ← r.input
  let row ← raster.rasterdata c.myplane
  some (r.compressor, ⟨r.compressor.compressBuf, row⟩)

def run (width : Nat) : Compressor → List Mem → Option (List Output)
  | _, [] => some []
  | c, row :: rows => do
    let (c, out) ← processRow width c row
    let outs ← run width c rows
    some (out :: outs)

/-- Along a run, the sentinel of each row differs from the stored pixel to its
left and from the last pixel of the seed row of its turn. -/
def SentinelsOk (width : Nat) : Compressor → List Mem → Prop
  | _, [] => True
  | c, row :: rows => SentinelOk width c.seedRow row ∧
    ∀ c' out, processRow width c row = some (c', out) → SentinelsOk width c' rows

theorem processRow_spec {width : Nat} (hwidth : 2 ≤ width) {c : Compressor} {row : Mem}
    (hplane : c.myplane = .color) (hok : SentinelOk width c.seedRow row) :
    Returns (processRow width c row) fun r => r.1.myplane = .color ∧
      slice (get3Pixel r.1.seedRow) 0 width = slice (get3Pixel row) 0 width ∧
      Compressed width c.seedRow row r.2.row r.2.bytes := by
  obtain ⟨⟨row', out⟩, hrun, hrow⟩ := compress_spec hwidth hok
  have hdata : (RasterData.only .color row (3 * width)).rasterdata .color = some row :=
    RasterData.only_data ..
  have hsize : 3 * width / 3 = width := Nat.mul_div_cancel_left width (by decide)
  have hseed : slice (get3Pixel (blit c.seedRow 0 row' (3 * width))) 0 width
      = slice (get3Pixel row) 0 width := by
    refine slice_congr fun i hi => ?_
    rw [Nat.zero_add, ← hrow.restored.pixels i hi]
    have hcell : ∀ k < 3, blit c.seedRow 0 row' (3 * width) (3 * i + k) = row' (3 * i + k) := by
      intro k hk
      have := blit_add c.seedRow 0 row' (by lia : 3 * i + k < 3 * width)
      rwa [Nat.zero_add] at this
    unfold get3Pixel
    rw [hcell 1 (by decide), hcell 2 (by decide)]
    have h0 := hcell 0 (by decide)
    rw [Nat.add_zero] at h0
    rw [h0]
  unfold processRow process
  rw [hplane]
  simp only [hdata, RasterData.only_size]
  rw [if_neg (by simp), if_neg (by simp)]
  simp only [Option.bind_eq_bind, Option.bind_some]
  rw [check_pos (by lia), check_pos (by lia), hsize, hrun]
  exact Returns.pure ⟨rfl, hseed, hrow⟩

/-- **Round trip of a sequence of rows.** Against any seed row, the printer gets
every row without the lowest bit of blue, the caller's rows keep their pixels
and every byte outside the last one, and the output fits its buffer. -/
theorem rows_round_trip (width : Nat) (hwidth : 2 ≤ width) (c : Compressor) (rows : List Mem)
    (hplane : c.myplane = .color) (hok : SentinelsOk width c rows) :
    Returns (run width c rows) fun outs =>
      decodeRows (slice (get3Pixel c.seedRow) 0 width) (outs.map Output.bytes)
        = some (rows.map fun row => slice (get3Pixel row) 0 width) ∧
      List.Forall₂ (fun row out => Restored width row out.row) rows outs ∧
      ∀ out ∈ outs, out.bytes.length ≤ 3 * width + 3 * width / 2 := by
  induction rows generalizing c with
  | nil => exact Returns.pure ⟨rfl, .nil, by simp⟩
  | cons row rows ih =>
    obtain ⟨hrow, hrest⟩ := hok
    obtain ⟨⟨c', out⟩, hprocess, hplane', hseed, hc⟩ := processRow_spec hwidth hplane hrow
    obtain ⟨outs, houts, hdecode, hrestored, hsizes⟩ := ih c' hplane' (hrest c' out hprocess)
    have hsize := hc.size
    refine ⟨out :: outs, by simp [run, hprocess, houts], ?_, .cons hc.restored hrestored, ?_⟩
    · rw [hseed] at hdecode
      rw [List.map_cons, decodeRows, hc.decodes]
      simp only [Option.bind_eq_bind, Option.bind_some, hdecode]
      rfl
    · intro o ho
      rcases List.mem_cons.mp ho with rfl | ho
      · have hsize : o.bytes.length ≤ 4 * width := hsize
        lia
      · exact hsizes o ho

/-- Two equal pixels after a white seed row: the sentinel is one step of green away. -/
theorem rows_round_trip_two_pixels : Returns
    (run 2 (new 6 (fun _ => 7) .color) [fun _ => 10]) fun outs =>
      decodeRows [kWhite, kWhite] (outs.map Output.bytes) = some [[0x0A0A0A, 0x0A0A0A]] := by
  have hok : SentinelsOk 2 (new 6 (fun _ => 7) .color) [fun _ => 10] := by
    refine ⟨fun marked hmarked => ?_, fun _ _ _ => trivial⟩
    have hput : placeSentinel 2 (new 6 (fun _ => 7) .color).seedRow (fun _ => 10)
        = some (put3Pixel (fun _ => 10) 1 0x0A0B0A) := rfl
    rw [hput] at hmarked
    cases hmarked
    decide
  refine (rows_round_trip 2 (Nat.le_refl 2) _ _ rfl hok).mono ?_
  rintro outs ⟨hdecode, -, -⟩
  exact hdecode

end Hplip.Hpcups.Mode10
