import Hplip.Lib.CInt
import Hplip.Lib.LittleEndian
import Hplip.Lib.PackedRow
import Hplip.Lib.Stores

/-!
# Changing bits per pixel (xchgbpp.c)

`changeBPP_convert` has a loop for each pair of depths. A loop goes over the pixels of the input
row, or over its bytes where the pixels are bits, and stores through a pointer into the output
buffer; a bilevel output is gathered bit by bit.
-/

namespace Hplip.Ip.ChangeBpp

open Stores LittleEndian

/-! ## Depths -/

inductive Depth where
  | bilevel
  | gray8
  | gray16
  | color24
  | color48
  deriving DecidableEq, Repr

/-- `iBitsPerPixel` -/
def Depth.bits : Depth → Nat
  | .bilevel => 1
  | .gray8 => 8
  | .gray16 => 16
  | .color24 => 24
  | .color48 => 48

inductive BppFault where
  | overflow
  deriving DecidableEq, Repr

structure Converter where
  inBitsPerPixel : Depth
  wOutBitsPerPixel : Depth
  dwInRowBytes : Nat
  dwOutRowBytes : Nat

/-- `(iPixelsPerRow * bpp + 7) / 8` -/
def rowBytes (iPixelsPerRow : Nat) (bpp : Depth) : Except BppFault Nat := do
  let bits ← CInt.int .overflow (iPixelsPerRow * bpp.bits)
  let sum ← CInt.int .overflow (bits + 7)
  return (sum / 8).toNat

/-- `changeBPP_getActualTraits` -/
def getActualTraits (iPixelsPerRow : Nat) (inBpp outBpp : Depth) : Except BppFault Converter := do
  let dwInRowBytes ← rowBytes iPixelsPerRow inBpp
  let dwOutRowBytes ← rowBytes iPixelsPerRow outBpp
  return ⟨inBpp, outBpp, dwInRowBytes, dwOutRowBytes⟩

/-! ## Stores -/

/-- `*(WORD*)pOut = ..` -/
def word (v : Nat) : List UInt8 := bytes 2 v

/-- `*(WORD*)pIn` -/
def wordAt (row : List UInt8) (pIn : Nat) : Nat := littleEndian row pIn 2

def ntscLuminance (rval gval bval : Nat) : Nat :=
  ((rval <<< 2) + rval + (gval <<< 3) + gval + (bval <<< 1)) >>> 4

/-- `for (bMask=0x80u; bMask!=0; bMask>>=1)` -/
def bilevelMasks : List UInt8 := [0x80, 0x40, 0x20, 0x10, 0x08, 0x04, 0x02, 0x01]

/-- A pixel of a bilevel byte: black where its bit is set. For 24 bits per pixel a whole DWORD is
stored, of which the next pixel takes the last byte. -/
def bilevelPixel (outBpp : Depth) (bBilevel bMask : UInt8) : List (Store UInt8) :=
  let black : Prop := bMask &&& bBilevel ≠ 0
  match outBpp with
  | .color48 =>
    let dwPixels := if black then 0 else 0xffffffff
    [.of (bytes 4 dwPixels), .of (word dwPixels)]
  | .color24 => [⟨bytes 4 (if black then 0 else 0xffffffff), 3⟩]
  | .gray16 => [.of (word (if black then 0 else 0xffff))]
  | .gray8 => [.of [if black then 0 else 0xff]]
  | .bilevel => []

/-- How far a turn of the loop moves `pIn` for a pixel of whole bytes. -/
def Depth.step : Depth → Nat
  | .bilevel => 1
  | .gray8 => 1
  | .gray16 => 2
  | .color24 => 3
  | .color48 => 6

/-- What is stored for the pixel at `pIn`, where neither row is bilevel. -/
def pixelStores (inBpp outBpp : Depth) (row : List UInt8) (pIn : Nat) : List (List UInt8) :=
  match inBpp, outBpp with
  | .gray8, .color48 =>
    let wPixels := byteAt row pIn <<< 8
    [word wPixels, word wPixels, word wPixels]
  | .gray8, .color24 =>
    let bPixels := UInt8.ofNat (byteAt row pIn)
    [[bPixels], [bPixels], [bPixels]]
  | .gray8, .gray16 => [word (byteAt row pIn <<< 8)]
  | .gray16, .color48 =>
    let wPixels := wordAt row pIn
    [word wPixels, word wPixels, word wPixels]
  | .gray16, .color24 =>
    let bPixels := UInt8.ofNat (wordAt row pIn >>> 8)
    [[bPixels], [bPixels], [bPixels]]
  | .gray16, .gray8 => [[UInt8.ofNat (wordAt row pIn >>> 8)]]
  | .color24, .color48 =>
    [word (byteAt row pIn <<< 8), word (byteAt row (pIn + 1) <<< 8), word (byteAt row (pIn + 2) <<< 8)]
  | .color24, .gray16 =>
    [word (ntscLuminance (byteAt row pIn <<< 8) (byteAt row (pIn + 1) <<< 8)
      (byteAt row (pIn + 2) <<< 8))]
  | .color24, .gray8 =>
    [[UInt8.ofNat (ntscLuminance (byteAt row pIn) (byteAt row (pIn + 1)) (byteAt row (pIn + 2)))]]
  | .color48, .color24 =>
    [[UInt8.ofNat (wordAt row pIn >>> 8)], [UInt8.ofNat (wordAt row (pIn + 2) >>> 8)],
      [UInt8.ofNat (wordAt row (pIn + 4) >>> 8)]]
  | .color48, .gray16 =>
    [word (ntscLuminance (wordAt row pIn) (wordAt row (pIn + 2)) (wordAt row (pIn + 4)))]
  | .color48, .gray8 =>
    [[UInt8.ofNat (ntscLuminance (wordAt row pIn) (wordAt row (pIn + 2)) (wordAt row (pIn + 4)) >>> 8)]]
  | _, _ => []

/-- What `OUTPUT_THRESHOLDED_BIT` is given for the pixel at `pIn`. -/
def grayParam (inBpp : Depth) (row : List UInt8) (pIn : Nat) : Nat :=
  match inBpp with
  | .bilevel => 0
  | .gray8 => byteAt row pIn
  | .gray16 => wordAt row pIn >>> 8
  | .color24 => ntscLuminance (byteAt row pIn) (byteAt row (pIn + 1)) (byteAt row (pIn + 2))
  | .color48 => ntscLuminance (wordAt row pIn) (wordAt row (pIn + 2)) (wordAt row (pIn + 4)) >>> 8

/-- `bMask` and `bBilevel`, and the bytes that are stored. -/
structure Gathered where
  bMask : UInt8
  bBilevel : UInt8
  stored : List UInt8

def outputThresholdedBit (s : Gathered) (gray : Nat) : Gathered :=
  let bBilevel := if gray < 128 then s.bBilevel ||| s.bMask else s.bBilevel
  let bMask := s.bMask >>> 1
  if bMask = 0 then ⟨0x80, 0, s.stored ++ [bBilevel]⟩ else ⟨bMask, bBilevel, s.stored⟩

def thresholded (grays : List Nat) : List UInt8 :=
  let s := grays.foldl outputThresholdedBit ⟨0x80, 0, []⟩
  if s.bMask ≠ 0x80 then s.stored ++ [s.bBilevel] else s.stored

/-- `while (pIn < pInAfter)`: the places that the pointer comes to, at most `fuel`. -/
def positions (step pInAfter : Nat) : Nat → Nat → List Nat
  | 0, _ => []
  | fuel + 1, pIn =>
    if pIn < pInAfter then pIn :: positions step pInAfter fuel (pIn + step) else []

/-- What `changeBPP_convert` stores into the output buffer. -/
def Converter.storesOf (g : Converter) (row : List UInt8) : List (Store UInt8) :=
  let places := positions g.inBitsPerPixel.step g.dwInRowBytes g.dwInRowBytes 0
  if g.inBitsPerPixel = g.wOutBitsPerPixel then [.of (row.take g.dwInRowBytes)]
  else if g.inBitsPerPixel = .bilevel then
    places.flatMap fun pIn => bilevelMasks.flatMap (bilevelPixel g.wOutBitsPerPixel (row.getD pIn 0))
  else if g.wOutBitsPerPixel = .bilevel then
    (thresholded (places.map (grayParam g.inBitsPerPixel row))).map fun b => .of [b]
  else (places.flatMap (pixelStores g.inBitsPerPixel g.wOutBitsPerPixel row)).map .of

/-- The output row that `changeBPP_convert` makes in a buffer that holds `mem`. -/
def Converter.convert (g : Converter) (row : List UInt8) (mem : Nat → UInt8) : List UInt8 :=
  (List.range g.dwOutRowBytes).map (run (g.storesOf row) 0 mem)

/-! ## The loop over a row -/

theorem positions_eq {step fuel pInAfter : Nat} (hstep : 0 < step) (n : Nat) (hfuel : n ≤ fuel)
    {pIn : Nat} (hafter : pInAfter = pIn + step * n) :
    positions step pInAfter fuel pIn = (List.range n).map fun x => pIn + step * x := by
  induction n generalizing fuel pIn with
  | zero =>
    cases fuel with
    | zero => rfl
    | succ fuel => exact if_neg (by lia)
  | succ n ih =>
    obtain ⟨fuel, rfl⟩ := Nat.exists_eq_add_of_le' (Nat.zero_lt_of_lt hfuel)
    have hmore : pIn < pInAfter := by
      rw [hafter, Nat.mul_succ]
      lia
    rw [positions, if_pos hmore, ih (Nat.le_of_succ_le_succ hfuel)
      (by rw [hafter, Nat.mul_succ]; lia), List.range_succ_eq_map, List.map_cons, List.map_map]
    congr 1
    refine List.map_congr_left fun x _ => ?_
    show pIn + step + step * x = pIn + step * (x + 1)
    rw [Nat.mul_succ]
    lia

theorem rowBytes_eq {n bytes : Nat} {bpp : Depth} (h : rowBytes n bpp = .ok bytes) :
    bytes = PackedRow.bytesFor (n * bpp.bits) := by
  obtain ⟨bits, hbits, h⟩ := CInt.steps_of_ok h
  obtain ⟨sum, hsum, h⟩ := CInt.steps_of_ok h
  obtain ⟨-, rfl⟩ := CInt.int_eq_ok.mp hbits
  obtain ⟨-, rfl⟩ := CInt.int_eq_ok.mp hsum
  cases h
  rw [PackedRow.bytesFor]
  lia

theorem getActualTraits_eq {n : Nat} {a b : Depth} {g : Converter}
    (h : getActualTraits n a b = .ok g) :
    g = ⟨a, b, PackedRow.bytesFor (n * a.bits), PackedRow.bytesFor (n * b.bits)⟩ := by
  obtain ⟨inBytes, hin, h⟩ := CInt.steps_of_ok h
  obtain ⟨outBytes, hout, h⟩ := CInt.steps_of_ok h
  cases h
  rw [rowBytes_eq hin, rowBytes_eq hout]

end Hplip.Ip.ChangeBpp
