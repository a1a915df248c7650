import Hplip.Lib.Slice

/-!
# Rasters and the compressor base class (Processor.h, Compressor.cpp)

A raster travels down the hpcups pipeline as one optional buffer per colour
type with its size. A buffer is a `Mem`: the cells past its size exist and hold
whatever the heap holds there, which is what the scans that compare before
they check a bound read.
-/

namespace Hplip.Hpcups

/-- The bytes reached through a `BYTE *`. -/
abbrev Mem := Nat → UInt8

/-- `COLORTYPE`, as the index of the two halves of a raster. -/
inductive ColorType
  | color
  | black
  deriving DecidableEq, Repr

/-- `RASTERDATA`: a null pointer is `none`. -/
structure RasterData where
  rastersize : ColorType → Nat
  rasterdata : ColorType → Option Mem

/-- The members of `Processor` and `Compressor` that the row compressors read
and write. `compressBuf` holds the bytes written since the last `Process`. -/
structure Compressor where
  compressBuf : List UInt8
  seedRow : Mem
  compressedsize : Nat
  inputsize : Nat
  seeded : Bool
  iRastersReady : Nat
  myplane : ColorType

/-- `memset (p, value, n)` at the start of a buffer. -/
def memset (m : Mem) (value : UInt8) (n : Nat) : Mem :=
  blit m 0 (fun _ => value) n

theorem slice_memset (m : Mem) (value : UInt8) (n : Nat) :
    slice (memset m value n) 0 n = List.replicate n value := by
  rw [memset, slice_blit_self]
  exact slice_eq_replicate fun _ _ => rfl

/-- The raster handed to a compressor working on `plane`: the other half is absent. -/
def RasterData.only (plane : ColorType) (data : Mem) (size : Nat) : RasterData where
  rastersize p := if p = plane then size else 0
  rasterdata p := if p = plane then some data else none

@[simp] theorem RasterData.only_size (plane : ColorType) (data : Mem) (size : Nat) :
    (RasterData.only plane data size).rastersize plane = size := if_pos rfl

@[simp] theorem RasterData.only_data (plane : ColorType) (data : Mem) (size : Nat) :
    (RasterData.only plane data size).rasterdata plane = some data := if_pos rfl

end Hplip.Hpcups
