import Hplip.Hpcups.Compressor
import Hplip.Lib.CommandStream
import Hplip.Lib.Loop
import Hplip.Lib.Vli

/-!
# Mode 9: compressed replacement delta rows (Mode9.cpp)

A plane is written as commands that skip bytes of the seed row and then either
spell out the bytes that follow (type 0) or repeat one byte (type 1). Offsets
and counts have small fields in the command byte, continued by chains of bytes.

The seed pointer and `last_byte` are plain `char`s, which are signed, while the
row is read through a `BYTE *`: a byte of 0x80 or more never compares equal
across the two. The scans therefore stop where a reader would not expect it, but
what they have passed over is always what it seems to be.
-/

namespace Hplip.Hpcups

/-- The members of `Mode9` beyond those of its base class. -/
structure Mode9 extends Compressor where
  originalKData : Mem
  resetSeedRow : Bool
  m_bPackedBits : Bool

namespace Mode9

open Loop CommandStream

/-! ## The compressor -/

/-- `Mode9::Mode9`: `heap` and `heapK` are what the fresh buffers held. -/
def new (rasterSize : Nat) (bPackedBits : Bool) (heap heapK : Mem) (myplane : ColorType) :
    Mode9 where
  compressBuf := []
  seedRow := memset heap 0 rasterSize
  compressedsize := 0
  inputsize := rasterSize
  seeded := false
  iRastersReady := 0
  myplane := myplane
  originalKData := heapK
  resetSeedRow := false
  m_bPackedBits := bPackedBits

/-- `Mode9::Flush`. -/
def flush (m : Mode9) : Mode9 :=
  if ¬ m.seeded then m
  else { m with
    compressedsize := 0
    iRastersReady := 0
    seeded := false
    seedRow := memset m.seedRow 0 m.inputsize }

/-- What a plain `char` that holds `b` is promoted to. -/
def char (b : UInt8) : Int :=
  if b.toNat < 128 then b.toNat else b.toNat - 256

/-- A `char` compared with a `BYTE`. -/
def sameByte (c b : UInt8) : Prop := char c = b.toNat

instance (c b : UInt8) : Decidable (sameByte c b) := by
  unfold sameByte
  infer_instance

/-- The two pointers as offsets, the last byte of a scan, and its counter. -/
structure Scan where
  sptr : Nat
  nptr : Nat
  lastByte : UInt8
  count : Nat

section Scans

variable (seed row : Mem)

/-- `while ((offset < size) && (*sptr++ == *nptr++))`; the decrements behind it
take back the step over the difference. -/
def seedScan (size : Nat) : Scan → Option Scan :=
  whileDo (fun s => s.count < size ∧ sameByte (seed s.sptr) (row s.nptr))
    (fun s => ⟨s.sptr + 1, s.nptr + 1, s.lastByte, s.count + 1⟩) (size + 1)

def literalScan (size : Nat) : Scan → Option Scan :=
  whileDo (fun s => ¬ sameByte (seed s.sptr) (row s.nptr) ∧
      ¬ sameByte s.lastByte (row s.nptr) ∧ s.count < size)
    (fun s => ⟨s.sptr + 1, s.nptr + 1, row s.nptr, s.count + 1⟩) (size + 1)

def backUp (size : Nat) (s : Scan) : Scan :=
  if s.count < size ∧ char s.lastByte = char (row s.nptr) then
    ⟨s.sptr - 1, s.nptr - 1, s.lastByte, s.count - 1⟩
  else s

/-- `while ((last_byte == *nptr++) && (byte_count < size))`, with the decrement
behind it; the seed pointer follows after the loop. -/
def runScan (size : Nat) : Scan → Option Scan :=
  whileDo (fun s => sameByte s.lastByte (row s.nptr) ∧ s.count < size)
    (fun s => ⟨s.sptr + 1, s.nptr + 1, s.lastByte, s.count + 1⟩) (size + 1)

end Scans

/-- The field of an offset or a count with `maxUnscaled` (`MAX_OFFSET0` and the
others) and `start` (`OFFSET_START0` and the others). -/
def field (maxUnscaled start value : Nat) : Nat :=
  if value > maxUnscaled + start then maxUnscaled + 1 else value - start

/-- One round of `while (rem_count)`. -/
def putRound (s : Nat × List UInt8) : Nat × List UInt8 :=
  let out := s.2 ++ [UInt8.ofNat (min s.1 255)]
  let out := if s.1 = 255 then out ++ [0] else out
  (s.1 - min s.1 255, out)

def putRest (maxUnscaled start value : Nat) : Option (List UInt8) :=
  if value > maxUnscaled + start then
    let rem := value - (maxUnscaled + start + 1)
    if rem = 0 then some [0]
    else (whileDo (fun s => s.1 ≠ 0) putRound (rem + 1) (rem, [])).map Prod.snd
  else some []

/-- `Mode9_comtype` through `bitf0`. -/
def comchar0 (roff replaceCount : Nat) : UInt8 :=
  UInt8.ofNat ((roff <<< 3) ||| replaceCount)

/-- `Mode9_comtype` through `bitf1`. -/
def comchar1 (roff replaceCount : Nat) : UInt8 :=
  UInt8.ofNat ((1 <<< 7) ||| ((roff <<< 5) ||| replaceCount))

def putCommand0 (offset byteCount : Nat) : Option (List UInt8) := do
  let offsetBytes ← putRest 14 0 offset
  let countBytes ← putRest 6 1 byteCount
  some (comchar0 (field 14 0 offset) (field 6 1 byteCount) :: (offsetBytes ++ countBytes))

def putCommand1 (offset byteCount : Nat) : Option (List UInt8) := do
  let offsetBytes ← putRest 2 0 offset
  let countBytes ← putRest 30 2 byteCount
  some (comchar1 (field 2 0 offset) (field 30 2 byteCount) :: (offsetBytes ++ countBytes))

structure Locals where
  size : Nat
  sptr : Nat
  nptr : Nat
  out : List UInt8

section Row

variable (seed row : Mem)

def mode0 (size offset : Nat) (start : Scan) (out : List UInt8) : Option Locals := do
  let lit ← literalScan seed row size
    ⟨start.sptr + 1, start.nptr + 1, row start.nptr, 1⟩
  let lit := backUp row size lit
  let command ← putCommand0 offset lit.count
  some
    { size := size - lit.count
      sptr := lit.sptr
      nptr := lit.nptr
      out := out ++ command ++ slice row (lit.nptr - lit.count) lit.count }

def mode1 (size offset : Nat) (start : Scan) (out : List UInt8) : Option Locals := do
  let run ← runScan row size
    ⟨start.sptr + 2, start.nptr + 2, row (start.nptr + 1), 2⟩
  let command ← putCommand1 offset run.count
  some
    { size := size - run.count
      sptr := run.sptr
      nptr := run.nptr
      out := out ++ command ++ [run.lastByte] }

/-- One iteration of `while (size > 0)`; `.inr` leaves it with the output. -/
def iter (s : Locals) : Option (Locals ⊕ List UInt8) :=
  if s.size > 0 then do
    let scan ← seedScan seed row s.size ⟨s.sptr, s.nptr, 0, 0⟩
    if scan.count ≥ s.size then some (.inr s.out)
    else
      let size := s.size - scan.count
      if row scan.nptr ≠ row (scan.nptr + 1) ∨ size < 2 then
        (mode0 seed row size scan.count scan s.out).map .inl
      else (mode1 row size scan.count scan s.out).map .inl
  else some (.inr s.out)

def compress (size : Nat) : Option (List UInt8) :=
  loop (iter seed row) (size + 1) ⟨size, 0, 0, []⟩

end Row

/-- `originalKData[curByte] |= curBit`. -/
def orAt (m : Mem) (i bit : Nat) : Mem :=
  fun j => if j = i then UInt8.ofNat ((m i).toNat ||| bit) else m j

def packBits (data : Mem) (rastersize : Nat) (kData : Mem) : Mem :=
  ((List.range rastersize).foldl (fun (s : Mem × Nat × Nat) i =>
    let m := if data i ≠ 0 then orAt s.1 s.2.1 s.2.2 else s.1
    if s.2.2 = 0x01 then (m, s.2.1 + 1, 0x80) else (m, s.2.1, s.2.2 >>> 1))
    (kData, 0, 0x80)).1

def kData (m : Mode9) (input : RasterData) : Mem :=
  match input.rasterdata m.myplane with
  | none => memset m.originalKData 0 (m.inputsize + 1)
  | some data =>
    let size := (input.rastersize m.myplane + 7) / 8
    let k := blit (memset m.originalKData 0 size) 0 data size
    if ¬ m.m_bPackedBits then packBits data (input.rastersize m.myplane) k else k

def plane (m : Mode9) (input : RasterData) : Option (Mem × Nat) :=
  match m.myplane, input.rasterdata m.myplane with
  | .black, none => some (kData m input, m.inputsize)
  | .black, some _ => some (kData m input, (input.rastersize .black + 7) / 8)
  | .color, some data => some (data, input.rastersize .color)
  -- a null pointer, which `Process` has returned for: only a black plane sets `ResetSeedRow`
  | .color, none => none

/-- `layer`, counted from 0: the number of the raster among those of its row;
`prev` is `iRastersDelivered` of the phase before, if there is one. -/
def layer (m : Mode9) (prev : Option Nat) : Nat :=
  (if m.myplane = .black then 1 else prev.getD 1) - 1

/-- The offset of the seed row of a plane of `size` bytes. -/
def slot (m : Mode9) (prev : Option Nat) (size : Nat) : Nat := size * m.layer prev

/-- `Mode9::Process`; the flag is its result. -/
def process (m : Mode9) (prev : Option Nat) (input : Option RasterData) :
    Option (Mode9 × Bool) :=
  match input with
  | none => some (flush m, false)
  | some raster =>
    if raster.rasterdata .color = none ∧ raster.rasterdata .black = none then
      some (flush m, false)
    else
      let m := { m with seeded := true }
      if ¬ m.resetSeedRow ∧ raster.rasterdata m.myplane = none then
        some ({ m with compressedsize := 0, iRastersReady := 1 }, true)
      else do
        let (row, size) ← plane m raster
        let slot := slot m prev size
        let out ← compress (fun i => m.seedRow (slot + i)) row size
        some ({ m with
          compressBuf := out
          compressedsize := out.length
          originalKData := if m.myplane = .black then kData m raster else m.originalKData
          resetSeedRow := m.resetSeedRow ||
            decide (m.myplane = .black ∧ raster.rasterdata .black ≠ none)
          seedRow := blit m.seedRow slot row size
          seeded := true
          iRastersReady := 1 }, true)

/-! ## The printer's side -/

/-- One command against the seed row; the state is the part of the row that is
already known. -/
def decodeStep (seed : List UInt8) : Step (List UInt8) UInt8
  | _, [] => none
  | done, b :: bs =>
    if b.toNat / 128 = 0 then do
      let (offset, bs) ← readVliRest 15 (b.toNat / 8 % 16) bs
      let (count, bs) ← readVliRest 7 (b.toNat % 8) bs
      let count := count + 1
      check (done.length + offset + count ≤ seed.length ∧ count ≤ bs.length)
      some (done ++ (seed.drop done.length).take offset ++ bs.take count, bs.drop count)
    else do
      let (offset, bs) ← readVliRest 3 (b.toNat / 32 % 4) bs
      let (count, bs) ← readVliRest 31 (b.toNat % 32) bs
      let count := count + 2
      check (done.length + offset + count ≤ seed.length)
      match bs with
      | [] => none
      | v :: bs =>
        some (done ++ (seed.drop done.length).take offset ++ List.replicate count v, bs)

/-- A plane: what its commands do not reach is copied from the seed row. -/
def decodeRow (seed bytes : List UInt8) : Option (List UInt8) :=
  (decode (decodeStep seed) bytes.length [] bytes).map fun done =>
    done ++ seed.drop done.length

/-! ## Commands -/

theorem field_eq (maxUnscaled start value : Nat) :
    field maxUnscaled start value = min (value - start) (maxUnscaled + 1) := by
  unfold field
  split <;> lia

theorem putRest_eq (maxUnscaled start value : Nat) :
    putRest maxUnscaled start value = some (vliRest (maxUnscaled + 1) (value - start)) := by
  unfold putRest
  by_cases h : value > maxUnscaled + start
  swap
  · rw [if_neg h, vliRest_of_lt (by lia)]
  rw [if_pos h, vliRest_of_le (by lia),
    show value - start - (maxUnscaled + 1) = value - (maxUnscaled + start + 1) by lia]
  generalize value - (maxUnscaled + start + 1) = rem
  by_cases h0 : rem = 0
  · subst h0
    rfl
  -- what is left of the chain, which is nothing once the count is used up
  have hloop : Returns (whileDo (fun s : Nat × List UInt8 => s.1 ≠ 0) putRound (rem + 1)
      (rem, [])) fun s => (s.2 ++ if s.1 = 0 then [] else vli s.1) = vli rem ∧ ¬ s.1 ≠ 0 := by
    refine Returns.whileDo
      (fun s : Nat × List UInt8 => (s.2 ++ if s.1 = 0 then [] else vli s.1) = vli rem)
      Prod.fst ?_ _ _ (by simp [h0]) (Nat.lt_succ_self rem)
    rintro ⟨r, out⟩ hI hr
    have hr : r ≠ 0 := hr
    have hI : (out ++ if r = 0 then [] else vli r) = vli rem := hI
    rw [if_neg hr] at hI
    refine ⟨?_, by show r - min r 255 < r; lia⟩
    rw [← hI]
    unfold putRound
    dsimp only
    rcases Nat.lt_trichotomy r 255 with hlt | rfl | hgt
    · rw [Nat.min_eq_left (Nat.le_of_lt hlt), if_neg (Nat.ne_of_lt hlt), Nat.sub_self,
        if_pos rfl, List.append_nil, vli_of_lt hlt]
    · simp [vli]
    · obtain ⟨r, rfl⟩ := Nat.exists_eq_add_of_le' (Nat.le_of_lt hgt)
      rw [Nat.min_eq_right (Nat.le_of_lt hgt), if_neg (Nat.ne_of_gt hgt), Nat.add_sub_cancel,
        if_neg (by lia), vli_add_255, List.append_assoc]
      rfl
  obtain ⟨s, hs, hI, hzero⟩ := hloop
  have hzero : s.1 = 0 := not_not.mp hzero
  rw [if_pos hzero, List.append_nil] at hI
  show (if rem = 0 then some [0] else _) = _
  rw [if_neg h0, hs, Option.map_some, hI]

def command0 (offset count : Nat) : List UInt8 :=
  comchar0 (min offset 15) (min (count - 1) 7) :: (vliRest 15 offset ++ vliRest 7 (count - 1))

def command1 (offset count : Nat) : List UInt8 :=
  comchar1 (min offset 3) (min (count - 2) 31) :: (vliRest 3 offset ++ vliRest 31 (count - 2))

theorem putCommand0_eq (offset count : Nat) :
    putCommand0 offset count = some (command0 offset count) := by
  rw [putCommand0, putRest_eq, putRest_eq, field_eq, field_eq]
  rfl

theorem putCommand1_eq (offset count : Nat) :
    putCommand1 offset count = some (command1 offset count) := by
  rw [putCommand1, putRest_eq, putRest_eq, field_eq, field_eq]
  rfl

theorem comchar0_fields : ∀ roff < 16, ∀ count < 8, (comchar0 roff count).toNat / 128 = 0 ∧
    (comchar0 roff count).toNat / 8 % 16 = roff ∧ (comchar0 roff count).toNat % 8 = count := by
  decide +kernel

theorem comchar1_fields : ∀ roff < 4, ∀ count < 32, (comchar1 roff count).toNat / 128 = 1 ∧
    (comchar1 roff count).toNat / 32 % 4 = roff ∧ (comchar1 roff count).toNat % 32 = count := by
  decide +kernel

theorem command0_length {offset count : Nat} (hcount : 1 ≤ count) :
    (command0 offset count).length + count ≤ 2 * (offset + count) := by
  have hoffset := vliRest_length_le 15 offset
  have hrest := vliRest_length_le 7 (count - 1)
  rw [command0, List.length_cons, List.length_append]
  lia

theorem command1_length {offset count : Nat} (hcount : 2 ≤ count) :
    (command1 offset count).length + 1 ≤ 2 * (offset + count) := by
  have hoffset := vliRest_length_le 3 offset
  have hrest := vliRest_length_le 31 (count - 2)
  rw [command1, List.length_cons, List.length_append]
  lia

section Printer

variable {seed done : List UInt8} {offset count : Nat}

theorem decodeStep_command0 {data : List UInt8} (hcount : 1 ≤ count)
    (hdata : data.length = count) (hfit : done.length + offset + count ≤ seed.length)
    (rest : List UInt8) :
    decodeStep seed done (command0 offset count ++ data ++ rest)
      = some (done ++ (seed.drop done.length).take offset ++ data, rest) := by
  obtain ⟨htype, hroff, hfield⟩ := comchar0_fields (min offset 15) (by omega)
    (min (count - 1) 7) (by omega)
  have hlen : count ≤ (data ++ rest).length := by
    rw [List.length_append, hdata]
    exact Nat.le_add_right count _
  rw [command0, List.cons_append, List.cons_append, decodeStep, if_pos htype, hroff, hfield,
    List.append_assoc, List.append_assoc, readVliRest_vliRest]
  simp only [Option.bind_eq_bind, Option.bind_some]
  rw [readVliRest_vliRest]
  simp only [Option.bind_some]
  rw [Nat.sub_add_cancel hcount, check_pos ⟨hfit, hlen⟩, List.take_left' hdata,
    List.drop_left' hdata]
  rfl

theorem decodeStep_command1 {b : UInt8} (hcount : 2 ≤ count)
    (hfit : done.length + offset + count ≤ seed.length) (rest : List UInt8) :
    decodeStep seed done (command1 offset count ++ [b] ++ rest)
      = some (done ++ (seed.drop done.length).take offset ++ List.replicate count b, rest) := by
  obtain ⟨htype, hroff, hfield⟩ := comchar1_fields (min offset 3) (by omega)
    (min (count - 2) 31) (by omega)
  rw [command1, List.cons_append, List.cons_append, decodeStep, htype, if_neg Nat.one_ne_zero,
    hroff, hfield, List.append_assoc, List.append_assoc, readVliRest_vliRest]
  simp only [Option.bind_eq_bind, Option.bind_some]
  rw [readVliRest_vliRest]
  simp only [Option.bind_some]
  rw [Nat.sub_add_cancel hcount, check_pos hfit]
  rfl

end Printer

/-! ## The scans -/

theorem char_inj {b c : UInt8} (h : char b = char c) : b = c := by
  have hb := b.toNat_lt
  have hc := c.toNat_lt
  refine UInt8.toNat_inj.mp ?_
  unfold char at h
  split at h <;> split at h <;> lia

theorem eq_of_sameByte {c b : UInt8} (h : sameByte c b) : c = b := by
  have hc := c.toNat_lt
  refine UInt8.toNat_inj.mp ?_
  unfold sameByte char at h
  split at h <;> omega

/-- A scan that has come `k` bytes from `p`, with `b` as the last byte. -/
def Scan.at (p k : Nat) (b : UInt8) : Scan := ⟨p + k, p + k, b, k⟩

section Scans

variable {seed row : Mem} {size p : Nat}

theorem seedScan_spec (b : UInt8) :
    Returns (seedScan seed row size ⟨p, p, b, 0⟩) fun s => ∃ k, s = .at p k b ∧ k ≤ size ∧
      ∀ j < k, seed (p + j) = row (p + j) := by
  refine (Returns.whileDo (fun s : Scan => ∃ k, s = .at p k b ∧ k ≤ size ∧
      ∀ j < k, seed (p + j) = row (p + j)) (fun s : Scan => size - s.count) ?_ _ _
    ⟨0, rfl, Nat.zero_le _, fun j hj => absurd hj (Nat.not_lt_zero j)⟩
    (Nat.lt_succ_of_le (Nat.sub_le _ _))).mono fun _ h => h.1
  rintro _ ⟨k, rfl, -, heq⟩ ⟨hlt, hsame⟩
  refine ⟨⟨k + 1, rfl, hlt, fun j hj => ?_⟩, Nat.sub_succ_lt_self _ _ hlt⟩
  rcases Nat.lt_succ_iff_lt_or_eq.mp hj with hj | rfl
  · exact heq j hj
  · exact eq_of_sameByte hsame

theorem literalScan_spec (hsize : 0 < size) :
    Returns (literalScan seed row size ⟨p + 1, p + 1, row p, 1⟩) fun s =>
      ∃ k, s = .at p k (row (p + k - 1)) ∧ 1 ≤ k ∧ k ≤ size := by
  refine (Returns.whileDo
    (fun s : Scan => ∃ k, s = .at p k (row (p + k - 1)) ∧ 1 ≤ k ∧ k ≤ size)
    (fun s : Scan => size - s.count) ?_ _ _ ⟨1, rfl, Nat.le_refl 1, hsize⟩
    (Nat.lt_succ_of_le (Nat.sub_le _ _))).mono fun _ h => h.1
  rintro _ ⟨k, rfl, hpos, -⟩ ⟨-, -, hlt⟩
  exact ⟨⟨k + 1, rfl, Nat.le_add_left 1 k, hlt⟩, Nat.sub_succ_lt_self _ _ hlt⟩

/-- At least one literal is left: the first is only followed by an equal byte if
a type 1 command is due. -/
theorem backUp_spec {k : Nat} (hk : 1 ≤ k ∧ k ≤ size)
    (hne : row p ≠ row (p + 1) ∨ size < 2) :
    ∃ k' b, backUp row size (.at p k (row (p + k - 1))) = .at p k' b ∧ 1 ≤ k' ∧ k' ≤ size := by
  by_cases hback : k < size ∧ char (row (p + k - 1)) = char (row (p + k))
  swap
  · exact ⟨k, _, if_neg hback, hk⟩
  have hequal : row (p + k - 1) = row (p + k) := char_inj hback.2
  have hk1 : k ≠ 1 := by
    rintro rfl
    rcases hne with hne | hsmall
    · exact hne hequal
    · exact absurd hback.1 (by omega)
  obtain ⟨k, rfl⟩ := Nat.exists_eq_add_of_le' hk.1
  exact ⟨k, _, if_pos hback, by omega, by omega⟩

theorem runScan_spec (hsize : 2 ≤ size) (hequal : row p = row (p + 1)) :
    Returns (runScan row size ⟨p + 2, p + 2, row (p + 1), 2⟩) fun s => ∃ k,
      s = .at p k (row p) ∧ 2 ≤ k ∧ k ≤ size ∧ ∀ j < k, row (p + j) = row p := by
  rw [← hequal]
  refine (Returns.whileDo (fun s : Scan => ∃ k, s = .at p k (row p) ∧ 2 ≤ k ∧ k ≤ size ∧
      ∀ j < k, row (p + j) = row p) (fun s : Scan => size - s.count) ?_ _ _
    ⟨2, rfl, Nat.le_refl 2, hsize, ?_⟩
    (Nat.lt_succ_of_le (Nat.sub_le _ _))).mono fun _ h => h.1
  · rintro _ ⟨k, rfl, hpos, -, hrun⟩ ⟨hsame, hlt⟩
    refine ⟨⟨k + 1, rfl, Nat.le_succ_of_le hpos, hlt, fun j hj => ?_⟩,
      Nat.sub_succ_lt_self _ _ hlt⟩
    rcases Nat.lt_succ_iff_lt_or_eq.mp hj with hj | rfl
    · exact hrun j hj
    · exact (eq_of_sameByte hsame).symm
  · intro j hj
    rcases Nat.lt_succ_iff_lt_or_eq.mp hj with hj | rfl
    · rw [Nat.lt_one_iff.mp hj, Nat.add_zero]
    · exact hequal.symm

end Scans

/-! ## The main loop -/

section Row

variable {seed row : Mem} {n : Nat}

/-- What the main loop keeps over a plane of `n` bytes when it stands at `p`: the
commands take the printer there, at no more than two bytes per byte. -/
structure Inv (seed row : Mem) (n p : Nat) (out : List UInt8) : Prop where
  le : p ≤ n
  takes : Takes (decodeStep (slice seed 0 n)) [] out (slice row 0 p)
  size : out.length ≤ 2 * p

/-- The locals when both pointers stand at `p`. -/
def Locals.at (n p : Nat) (out : List UInt8) : Locals := ⟨n - p, p, p, out⟩

/-- What the main loop leaves: commands up to a position from which the plane is
its seed row. -/
def Done (seed row : Mem) (n : Nat) (out : List UInt8) : Prop :=
  ∃ p ≤ n, Takes (decodeStep (slice seed 0 n)) [] out (slice row 0 p) ∧
    slice seed p (n - p) = slice row p (n - p) ∧ out.length ≤ 2 * n

theorem Inv.done {p : Nat} {out : List UInt8} (h : Inv seed row n p out)
    (heq : ∀ j < n - p, seed (p + j) = row (p + j)) : Done seed row n out :=
  ⟨p, h.le, h.takes, slice_congr heq,
    Nat.le_trans h.size (Nat.mul_le_mul_left 2 h.le)⟩

theorem Inv.command {p off cnt : Nat} {out c : List UInt8} (h : Inv seed row n p out)
    (hfit : p + off + cnt ≤ n) (heq : ∀ j < off, seed (p + j) = row (p + j)) (hne : c ≠ [])
    (hsize : c.length ≤ 2 * (off + cnt))
    (hc : ∀ rest, decodeStep (slice seed 0 n) (slice row 0 p) (c ++ rest)
      = some (slice row 0 p ++ slice seed p off ++ slice row (p + off) cnt, rest)) :
    Inv seed row n (p + off + cnt) (out ++ c) := by
  have hrow : slice row 0 p ++ slice seed p off ++ slice row (p + off) cnt
      = slice row 0 (p + off + cnt) := by
    rw [slice_add row 0 (p + off), slice_add row 0 p, Nat.zero_add, Nat.zero_add,
      slice_congr heq]
  have hold := h.size
  refine ⟨hfit, h.takes.snoc hne fun rest => ?_, ?_⟩
  · rw [hc rest, hrow]
  · rw [List.length_append]
    lia

theorem mode0_spec {p off : Nat} {out : List UInt8} (b : UInt8) (h : Inv seed row n p out)
    (hoff : p + off < n) (heq : ∀ j < off, seed (p + j) = row (p + j))
    (hne : row (p + off) ≠ row (p + off + 1) ∨ n - p - off < 2) :
    Returns (mode0 seed row (n - p - off) off (.at p off b) out) fun s =>
      ∃ p' out', s = .at n p' out' ∧ p < p' ∧ Inv seed row n p' out' := by
  refine Returns.bind (literalScan_spec (p := p + off) (by lia)) ?_
  rintro _ ⟨k, rfl, hk⟩
  obtain ⟨cnt, last, hback, hpos, hcnt⟩ := backUp_spec hk hne
  have hfit : p + off + cnt ≤ n := by lia
  have hdata : slice row (p + off + cnt - cnt) cnt = slice row (p + off) cnt := by
    rw [Nat.add_sub_cancel]
  rw [hback]
  dsimp only [Scan.at]
  rw [putCommand0_eq]
  refine Returns.pure ⟨p + off + cnt, out ++ (command0 off cnt ++ slice row (p + off) cnt),
    ?_, by lia, h.command hfit heq (by simp [command0]) ?_ fun rest => ?_⟩
  · dsimp only [Locals.at]
    rw [hdata, List.append_assoc, show n - (p + off + cnt) = n - p - off - cnt by lia]
  · rw [List.length_append, slice_length]
    exact command0_length hpos
  · rw [decodeStep_command0 hpos (slice_length ..) (by simpa using hfit), slice_length,
      take_drop_slice seed (by lia), Nat.zero_add]

theorem mode1_spec {p off : Nat} {out : List UInt8} (b : UInt8) (h : Inv seed row n p out)
    (heq : ∀ j < off, seed (p + j) = row (p + j))
    (hequal : row (p + off) = row (p + off + 1)) (hsize : 2 ≤ n - p - off) :
    Returns (mode1 row (n - p - off) off (.at p off b) out) fun s =>
      ∃ p' out', s = .at n p' out' ∧ p < p' ∧ Inv seed row n p' out' := by
  refine Returns.bind (runScan_spec (p := p + off) hsize hequal) ?_
  rintro _ ⟨cnt, rfl, hpos, hcnt, hrun⟩
  have hfit : p + off + cnt ≤ n := by lia
  have hdata : slice row (p + off) cnt = List.replicate cnt (row (p + off)) :=
    slice_eq_replicate hrun
  dsimp only [Scan.at]
  rw [putCommand1_eq]
  refine Returns.pure ⟨p + off + cnt, out ++ (command1 off cnt ++ [row (p + off)]),
    ?_, by lia, h.command hfit heq (by simp [command1]) ?_ fun rest => ?_⟩
  · dsimp only [Locals.at]
    rw [List.append_assoc, show n - (p + off + cnt) = n - p - off - cnt by lia]
  · rw [List.length_append]
    exact command1_length hpos
  · rw [decodeStep_command1 hpos (by simpa using hfit), slice_length,
      take_drop_slice seed (by lia), Nat.zero_add, hdata]

theorem iter_spec {p : Nat} {out : List UInt8} (h : Inv seed row n p out) :
    Returns (iter seed row (.at n p out)) fun r => Sum.elim
      (fun s' => ∃ p' out', s' = .at n p' out' ∧ p < p' ∧ Inv seed row n p' out')
      (Done seed row n) r := by
  rw [iter]
  dsimp only [Locals.at]
  refine Returns.ite (fun hsize => ?_) (fun hsize => ?_)
  swap
  · -- the plane is used up
    exact Returns.pure (h.done fun j hj => absurd hj (by lia))
  refine Returns.bind (seedScan_spec 0) ?_
  rintro _ ⟨off, rfl, hoff, heq⟩
  refine Returns.ite (fun hbail => ?_) (fun hbail => ?_)
  · -- the rest of the plane equals the seed row
    exact Returns.pure (h.done fun j hj => heq j (Nat.lt_of_lt_of_le hj hbail))
  have hlt : p + off < n := by
    have : ¬ off ≥ n - p := hbail
    lia
  refine Returns.ite (fun hne => ?_) (fun hrun => ?_)
  · obtain ⟨s, hs, hpost⟩ := mode0_spec 0 h hlt heq hne
    exact ⟨.inl s, by dsimp only [Scan.at] at hs ⊢; rw [hs]; rfl, hpost⟩
  · obtain ⟨hequal, hsize⟩ := not_or.mp hrun
    obtain ⟨s, hs, hpost⟩ := mode1_spec 0 h heq (not_not.mp hequal) (Nat.not_lt.mp hsize)
    exact ⟨.inl s, by dsimp only [Scan.at] at hs ⊢; rw [hs]; rfl, hpost⟩

theorem compress_spec (seed row : Mem) (n : Nat) :
    Returns (compress seed row n) (Done seed row n) := by
  refine Returns.loop
    (fun s : Locals => ∃ p out, s = .at n p out ∧ Inv seed row n p out)
    (fun s : Locals => s.size) ?_ (n + 1) (.at n 0 [])
    ⟨0, [], rfl, Nat.zero_le n, .nil _, Nat.zero_le 0⟩ (Nat.lt_succ_of_le (Nat.sub_le n 0))
  rintro _ ⟨p, out, rfl, h⟩
  refine (iter_spec h).mono ?_
  rintro (s' | out') hr
  · obtain ⟨p', out', rfl, hlt, h'⟩ := hr
    have hle := h'.le
    exact ⟨⟨p', out', rfl, h'⟩, by show n - p' < n - p; lia⟩
  · exact hr

theorem Done.decodeRow {out : List UInt8} (h : Done seed row n out) :
    decodeRow (slice seed 0 n) out = some (slice row 0 n) := by
  obtain ⟨p, hp, htakes, heq, -⟩ := h
  rw [Mode9.decodeRow, htakes.decode_eq (Nat.le_refl _), Option.map_some, slice_length,
    drop_slice seed hp, Nat.zero_add, heq, slice_append_slice row hp]

end Row

/-! ## One plane through `Process` -/

def planeSize (m : Mode9) (input : RasterData) : Nat :=
  match m.myplane with
  | .color => input.rastersize .color
  | .black => (input.rastersize .black + 7) / 8

/-- What `Process` leaves when it compresses a plane. -/
structure Processed (m : Mode9) (slot : Nat) (row : Mem) (n : Nat) (m' : Mode9) : Prop where
  decodes : decodeRow (slice m.seedRow slot n) m'.compressBuf = some (slice row 0 n)
  size : m'.compressBuf.length ≤ 2 * n
  compressedsize : m'.compressedsize = m'.compressBuf.length
  seedRow : m'.seedRow = blit m.seedRow slot row n
  myplane : m'.myplane = m.myplane
  inputsize : m'.inputsize = m.inputsize
  seeded : m'.seeded = true

theorem process_spec (m : Mode9) (prev : Option Nat) (input : RasterData) {row data : Mem}
    {n : Nat} (hdata : input.rasterdata m.myplane = some data)
    (hplane : plane m input = some (row, n)) :
    Returns (process m prev (some input)) fun r =>
      r.2 = true ∧ Processed m (slot m prev n) row n r.1 := by
  have hthere : ¬ (input.rasterdata .color = none ∧ input.rasterdata .black = none) := by
    rintro ⟨hcolor, hblack⟩
    cases hm : m.myplane
    · rw [hm, hcolor] at hdata
      cases hdata
    · rw [hm, hblack] at hdata
      cases hdata
  obtain ⟨out, hout, hdone⟩ := compress_spec (fun i => m.seedRow (slot m prev n + i)) row n
  have hseed : slice (fun i => m.seedRow (slot m prev n + i)) 0 n
      = slice m.seedRow (slot m prev n) n :=
    slice_congr fun j _ => by rw [Nat.zero_add]
  have hplane' : plane { m with seeded := true } input = some (row, n) := hplane
  have hslot : slot { m with seeded := true } prev n = slot m prev n := rfl
  rw [process]
  dsimp only
  rw [if_neg hthere, if_neg (by simp [hdata]), hplane']
  simp only [Option.bind_eq_bind, Option.bind_some, hslot]
  rw [hout]
  refine Returns.pure ⟨rfl, ?_⟩
  obtain ⟨-, -, -, -, hsize⟩ := id hdone
  exact ⟨by rw [← hseed]; exact hdone.decodeRow, hsize, rfl, rfl, rfl, rfl, rfl⟩

/-- **Round trip of a plane.** Colour data and packed black data of any content,
against any seed row at any layer. -/
theorem process_round_trip (m : Mode9) (prev : Option Nat) (input : RasterData) (data : Mem)
    (hdata : input.rasterdata m.myplane = some data)
    (hpacked : m.myplane = .color ∨ m.m_bPackedBits = true) :
    Returns (process m prev (some input)) fun r => r.2 = true ∧
      decodeRow (slice m.seedRow (slot m prev (planeSize m input)) (planeSize m input))
        r.1.compressBuf = some (slice data 0 (planeSize m input)) ∧
      r.1.compressBuf.length ≤ 2 * planeSize m input := by
  cases hm : m.myplane with
  | color =>
    have hplane : plane m input = some (data, planeSize m input) := by
      unfold plane planeSize
      rw [hm] at hdata
      rw [hm, hdata]
    refine (process_spec m prev input hdata hplane).mono ?_
    rintro r ⟨hready, hr⟩
    exact ⟨hready, hr.decodes, hr.size⟩
  | black =>
    have hbits : m.m_bPackedBits = true := by
      rcases hpacked with hcolor | hbits
      · rw [hm] at hcolor
        cases hcolor
      · exact hbits
    have hplane : plane m input = some (kData m input, planeSize m input) := by
      unfold plane planeSize
      rw [hm] at hdata
      rw [hm, hdata]
    have hcopy : slice (kData m input) 0 (planeSize m input)
        = slice data 0 (planeSize m input) := by
      unfold kData planeSize
      rw [hdata, hm]
      dsimp only
      rw [if_neg (not_not_intro hbits), slice_blit_self]
    refine (process_spec m prev input hdata hplane).mono ?_
    rintro r ⟨hready, hr⟩
    exact ⟨hready, hr.decodes.trans (by rw [hcopy]), hr.size⟩

/-- A black plane of four packed bytes with values on both sides of 0x80. -/
theorem process_round_trip_black : Returns
    (process (new 4 true (fun _ => 7) (fun _ => 7) .black) none
      (some (.only .black (fun i => if i < 2 then 200 else 3) 32))) fun r =>
      decodeRow [0, 0, 0, 0] r.1.compressBuf = some [200, 200, 3, 3] := by
  refine (process_round_trip _ _ _ _ (RasterData.only_data _ _ _) (.inr rfl)).mono ?_
  rintro r ⟨-, hdecode, -⟩
  exact hdecode

end Mode9

end Hplip.Hpcups
