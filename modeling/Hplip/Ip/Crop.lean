import Mathlib
import Hplip.Ip.Ipmain
import Hplip.Lib.CInt
import Hplip.Lib.PackedRow

/-!
# Cropping an image (`xcrop.c`)

The transform drops rows at the top and after a maximum, and pixels at both sides. A bilevel
row is cut at a byte boundary: the left edge moves to the nearest multiple of 8.
-/

namespace Hplip.Ip.Crop

open CInt Checked PackedRow

/-! ## The transform -/

/-- How a function ends early: an `INSURE` fails, an `int` overflows, or `memcpy` leaves the
input buffer. -/
inductive Stop
  | fatalError
  | overflow
  | outside
  deriving DecidableEq

/-- `CROP_INST`, less its check value. -/
structure Inst where
  traits : IpImageTraits
  dwLeft : UInt32
  dwRight : UInt32
  dwTop : UInt32
  dwMaxOutRows : UInt32
  dwInBytesPerRow : UInt32
  dwOutBytesPerRow : UInt32
  dwLeftCropBytes : UInt32
  dwInRows : UInt32
  dwOutRows : UInt32
  dwInNextPos : UInt32
  dwOutNextPos : UInt32
  deriving DecidableEq

/-- `aXformInfo`. -/
structure XformSpec where
  left : UInt32
  right : UInt32
  top : UInt32
  maxOutRows : UInt32

def openXform : Inst := ⟨⟨0, 0, 0, 0, 0, 0, 0, 0⟩, 0, 0, 0, 0, 0, 0, 0, 0, 0, 0, 0⟩

def setDefaultInputTraits (g : Inst) (traits : IpImageTraits) : Except Stop Inst := do
  require (0 < traits.iPixelsPerRow ∧ 0 < traits.iBitsPerPixel) .fatalError
  return { g with traits := traits }

/-- `g->dwMaxOutRows`: 0 stands for no limit. -/
def maxOutRows (spec : XformSpec) : UInt32 :=
  if spec.maxOutRows = 0 then 0x7fffffff else spec.maxOutRows

def setXformSpec (g : Inst) (spec : XformSpec) : Inst :=
  { g with
    dwLeft := spec.left
    dwRight := spec.right
    dwTop := spec.top
    dwMaxOutRows := maxOutRows spec }

/-- `(bpp*n + 7) / 8`. -/
def rowBytes (bpp n : Int) : Except Stop Int := do
  let bits ← int .overflow (bpp * n)
  let rounded ← int .overflow (bits + 7)
  return rounded.tdiv 8

def shiftLeft (bpp left right : Int) : Except Stop Int :=
  if bpp = 1 then do
    let up ← int .overflow (left + 4)
    let shift ← int .overflow (up / 8 * 8 - left)
    let left ← int .overflow (left + shift)
    let _right ← int .overflow (right + shift)
    return left
  else return left

/-- `pOutTraits->lNumRows`. -/
def outNumRows (g : Inst) : Except Stop Int :=
  if 0 < g.traits.lNumRows then do
    let maxOut : Int := g.dwMaxOutRows.toNat
    let actualOut := g.traits.lNumRows - g.dwTop.toNat
    require (0 ≤ actualOut) .fatalError
    return if actualOut < maxOut then actualOut else maxOut
  else return g.traits.lNumRows

/-- The instance with the byte counts, the input traits and the output traits. -/
def getActualTraits (g : Inst) : Except Stop (Inst × IpImageTraits × IpImageTraits) := do
  let bpp := g.traits.iBitsPerPixel
  let left := ofDword g.dwLeft
  let right := ofDword g.dwRight
  let inWidth := g.traits.iPixelsPerRow
  let rest ← int .overflow (inWidth - left)
  let outWidth ← int .overflow (rest - right)
  require (0 ≤ outWidth) .fatalError
  let left ← shiftLeft bpp left right
  let inBytes ← rowBytes bpp inWidth
  let outBytes ← rowBytes bpp outWidth
  let leftBytes ← rowBytes bpp left
  let lNumRows ← outNumRows g
  return ({ g with
    dwInBytesPerRow := toDword inBytes
    dwOutBytesPerRow := toDword outBytes
    dwLeftCropBytes := toDword leftBytes },
    g.traits, { g.traits with iPixelsPerRow := outWidth, lNumRows := lNumRows })

/-- `*pdwMinInBufLen` and `*pdwMinOutBufLen`. -/
def getActualBufSizes (g : Inst) : UInt32 × UInt32 := (g.dwInBytesPerRow, g.dwOutBytesPerRow)

/-- What `convert` answers; `copiedFrom` is the offset in the input buffer of the first byte
that it copied. -/
structure Converted where
  result : UInt16
  inUsed : UInt32
  inNextPos : UInt32
  outUsed : UInt32
  outThisPos : UInt32
  outBuf : List UInt8
  copiedFrom : Nat
  deriving DecidableEq

/-- `dwOutBytes`: a row that is cropped has none. -/
def outBytes (g : Inst) : UInt32 :=
  if g.dwInRows < g.dwTop ∨ g.dwMaxOutRows ≤ g.dwOutRows then 0 else g.dwOutBytesPerRow

def convert (g : Inst) (inputBuf : Option (List UInt8)) (dwOutputAvail : UInt32) :
    Except Stop (Converted × Inst) :=
  match inputBuf with
  | none => return (⟨ipDone, 0, g.dwInNextPos, 0, g.dwOutNextPos, [], 0⟩, g)
  | some buf => do
    let dwOutBytes := outBytes g
    let start := g.dwLeftCropBytes.toNat
    require (g.dwInBytesPerRow.toNat ≤ buf.length) .fatalError
    require (dwOutBytes ≤ dwOutputAvail) .fatalError
    require (0 < dwOutBytes → start + dwOutBytes.toNat ≤ buf.length) .outside
    return (⟨ipConsumedRow ||| ipProducedRow ||| ipReadyForData,
      g.dwInBytesPerRow, g.dwInNextPos + g.dwInBytesPerRow,
      dwOutBytes, g.dwOutNextPos, (buf.drop start).take dwOutBytes.toNat, start⟩,
      { g with
        dwInRows := g.dwInRows + 1
        dwOutRows := if 0 < dwOutBytes then g.dwOutRows + 1 else g.dwOutRows
        dwInNextPos := g.dwInNextPos + g.dwInBytesPerRow
        dwOutNextPos := g.dwOutNextPos + dwOutBytes })

/-! ## A whole image -/

def start (traits : IpImageTraits) (spec : XformSpec) : Except Stop Inst := do
  let g ← setDefaultInputTraits openXform traits
  let parsed ← getActualTraits (setXformSpec g spec)
  return parsed.1

/-- The calls on the rows of an image, the output buffer as large as `getActualBufSizes` asks. -/
def convertRows : Inst → List (List UInt8) → Except Stop (List Converted × Inst)
  | g, [] => return ([], g)
  | g, buf :: bufs => do
    let (c, g) ← convert g (some buf) (getActualBufSizes g).2
    let (cs, g) ← convertRows g bufs
    return (c :: cs, g)

def convertImage (g : Inst) (bufs : List (List UInt8)) : Except Stop (List Converted) := do
  let (cs, g) ← convertRows g bufs
  let (c, _) ← convert g none (getActualBufSizes g).2
  return cs ++ [c]

/-! ## What cropping means -/

def leftEdge (traits : IpImageTraits) (spec : XformSpec) : Int :=
  if traits.iBitsPerPixel = 1 then (ofDword spec.left + 4) / 8 * 8 else ofDword spec.left

def outWidth (traits : IpImageTraits) (spec : XformSpec) : Int :=
  traits.iPixelsPerRow - ofDword spec.left - ofDword spec.right

/-- How many of `n` rows are kept. -/
def rowsKept (spec : XformSpec) (n : Nat) : Nat :=
  min (maxOutRows spec).toNat (n - spec.top.toNat)

def bytesPerRow (traits : IpImageTraits) : Nat :=
  bytesFor (traits.iBitsPerPixel * traits.iPixelsPerRow).toNat

/-- A call that outputs the pixels of the window: each is a pixel of the row, and each byte
that was copied is a byte of the row. -/
structure ShowsWindow (traits : IpImageTraits) (spec : XformSpec) (row : List UInt8)
    (c : Converted) : Prop where
  length : c.outBuf.length = bytesFor (traits.iBitsPerPixel * outWidth traits spec).toNat
  inRow : ∀ j < c.outBuf.length, c.copiedFrom + j < bytesPerRow traits
  pixels : ∀ x : Nat, (x : Int) < outWidth traits spec →
    0 ≤ leftEdge traits spec + x ∧ leftEdge traits spec + x < traits.iPixelsPerRow ∧
      pixel traits.iBitsPerPixel.toNat c.outBuf x =
        pixel traits.iBitsPerPixel.toNat row (leftEdge traits spec + x).toNat

/-- The calls on an image of the rows `rows`, a flush at the end: those between the top and the
maximum show their window, the others nothing, and as many report a row as are kept. -/
structure Crops (traits : IpImageTraits) (spec : XformSpec) (rows : List (List UInt8))
    (cs : List Converted) : Prop where
  length : cs.length = rows.length + 1
  kept : ∀ i row c, rows[i]? = some row → cs[i]? = some c →
    spec.top.toNat ≤ i → i < spec.top.toNat + rowsKept spec rows.length →
      ShowsWindow traits spec row c
  others : ∀ (i : Nat) c, cs[i]? = some c →
    ¬ (spec.top.toNat ≤ i ∧ i < spec.top.toNat + rowsKept spec rows.length) → c.outBuf = []
  counted : (cs.filter fun c => Has c.result ipProducedRow).length = rowsKept spec rows.length

/-! ## The instance that converts -/

theorem rowBytes_ok {bpp n m : Int} (h : rowBytes bpp n = .ok m) :
    IsInt (bpp * n + 7) ∧ m = (bpp * n + 7).tdiv 8 := by
  obtain ⟨bits, hbits, h⟩ := steps_of_ok h
  obtain ⟨rounded, hrounded, h⟩ := steps_of_ok h
  obtain ⟨-, rfl⟩ := int_eq_ok.mp hbits
  obtain ⟨hfits, rfl⟩ := int_eq_ok.mp hrounded
  exact ⟨hfits, (Except.ok.inj h).symm⟩

theorem rowBytes_toDword {bpp n m : Int} (h : rowBytes bpp n = .ok m) (hn : 0 ≤ bpp * n) :
    (toDword m).toNat = bytesFor (bpp * n).toNat := by
  obtain ⟨hfits, rfl⟩ := rowBytes_ok h
  have hdiv : (bpp * n + 7).tdiv 8 = (bpp * n + 7) / 8 := Int.tdiv_eq_ediv_of_nonneg (by lia)
  unfold IsInt at hfits
  rw [hdiv, toDword_of_nonneg (by lia) (by lia), bytesFor]
  lia

theorem shiftLeft_ok {bpp left right m : Int} (h : shiftLeft bpp left right = .ok m) :
    m = if bpp = 1 then (left + 4) / 8 * 8 else left := by
  unfold shiftLeft at h
  split at h
  · obtain ⟨up, hup, h₁⟩ := steps_of_ok h
    obtain ⟨shift, hshift, h₂⟩ := steps_of_ok h₁
    obtain ⟨edge, hedge, h₃⟩ := steps_of_ok h₂
    obtain ⟨_, _, h₄⟩ := steps_of_ok h₃
    have hup := (int_eq_ok.mp hup).2
    have hshift := (int_eq_ok.mp hshift).2
    have hedge := (int_eq_ok.mp hedge).2
    have hm := Except.ok.inj h₄
    rw [if_pos ‹_›]
    lia
  · rw [if_neg ‹_›]
    exact (Except.ok.inj h).symm

structure Started (traits : IpImageTraits) (spec : XformSpec) (g : Inst) : Prop where
  bpp : 0 < traits.iBitsPerPixel
  width : 0 < traits.iPixelsPerRow
  outWidth : 0 ≤ outWidth traits spec
  top : g.dwTop = spec.top
  max : g.dwMaxOutRows = maxOutRows spec
  inBytes : g.dwInBytesPerRow.toNat = bytesPerRow traits
  outBytes : g.dwOutBytesPerRow.toNat
    = bytesFor (traits.iBitsPerPixel * Crop.outWidth traits spec).toNat
  left : 0 ≤ leftEdge traits spec →
    g.dwLeftCropBytes.toNat = bytesFor (traits.iBitsPerPixel * leftEdge traits spec).toNat
  inRows : g.dwInRows = 0
  outRows : g.dwOutRows = 0

theorem started_of_start {traits : IpImageTraits} {spec : XformSpec} {g : Inst}
    (h : start traits spec = .ok g) : Started traits spec g := by
  obtain ⟨g₁, hdefault, h₁⟩ := steps_of_ok h
  obtain ⟨parsed, hparse, h₂⟩ := steps_of_ok h₁
  obtain ⟨_, hknown, h₃⟩ := steps_of_ok hdefault
  obtain ⟨hwidth, hbpp⟩ := require_eq_ok.mp hknown
  have hg : parsed.1 = g := Except.ok.inj h₂
  have hg₁ : { openXform with traits := traits } = g₁ := Except.ok.inj h₃
  subst hg hg₁
  -- the operations of `getActualTraits`, one after the other
  obtain ⟨rest, hrest, h₄⟩ := steps_of_ok hparse
  obtain ⟨out, hout, h₅⟩ := steps_of_ok h₄
  obtain ⟨_, hpos, h₆⟩ := steps_of_ok h₅
  obtain ⟨left, hleft, h₇⟩ := steps_of_ok h₆
  obtain ⟨inBytes, hin, h₈⟩ := steps_of_ok h₇
  obtain ⟨outBytes, hbytes, h₉⟩ := steps_of_ok h₈
  obtain ⟨leftBytes, hcrop, h₁₀⟩ := steps_of_ok h₉
  obtain ⟨_, _, h₁₁⟩ := steps_of_ok h₁₀
  have hrest := (int_eq_ok.mp hrest).2
  have hout := (int_eq_ok.mp hout).2
  subst hrest hout
  have hnonneg := require_eq_ok.mp hpos
  have hedge := shiftLeft_ok hleft
  obtain rfl := Except.ok.inj h₁₁
  exact {
    bpp := hbpp
    width := hwidth
    outWidth := hnonneg
    top := rfl
    max := rfl
    inBytes := rowBytes_toDword hin (Int.mul_nonneg hbpp.le hwidth.le)
    outBytes := rowBytes_toDword hbytes (Int.mul_nonneg hbpp.le hnonneg)
    left := fun hpos => by
      subst hedge
      exact rowBytes_toDword hcrop (Int.mul_nonneg hbpp.le hpos)
    inRows := rfl
    outRows := rfl }

/-! ## Runs -/

theorem row_marked : Has (ipConsumedRow ||| ipProducedRow ||| ipReadyForData) ipProducedRow := by
  decide

theorem flush_unmarked : ¬ Has ipDone ipProducedRow := by decide

theorem convert_marks {g g' : Inst} {buf : List UInt8} {avail : UInt32} {c : Converted}
    (h : convert g (some buf) avail = .ok (c, g')) :
    Has c.result ipProducedRow ∧
      c.outBuf = (buf.drop g.dwLeftCropBytes.toNat).take (outBytes g).toNat := by
  obtain ⟨_, _, h₁⟩ := steps_of_ok h
  obtain ⟨_, _, h₂⟩ := steps_of_ok h₁
  obtain ⟨_, _, h₃⟩ := steps_of_ok h₂
  obtain ⟨rfl, -⟩ := Prod.mk.inj (Except.ok.inj h₃)
  exact ⟨row_marked, rfl⟩

theorem convertRows_cons_ok {g g' : Inst} {buf : List UInt8} {bufs : List (List UInt8)}
    {cs : List Converted} (h : convertRows g (buf :: bufs) = .ok (cs, g')) :
    ∃ c g₁ cs₁, convert g (some buf) (getActualBufSizes g).2 = .ok (c, g₁) ∧
      convertRows g₁ bufs = .ok (cs₁, g') ∧ cs = c :: cs₁ := by
  obtain ⟨⟨c, g₁⟩, hc, h₁⟩ := steps_of_ok h
  obtain ⟨⟨cs₁, g₂⟩, hcs, h₂⟩ := steps_of_ok h₁
  obtain ⟨rfl, rfl⟩ := Prod.mk.inj (Except.ok.inj h₂)
  exact ⟨c, g₁, cs₁, hc, hcs, rfl⟩

theorem convertRows_marks {g g' : Inst} {bufs : List (List UInt8)} {cs : List Converted}
    (h : convertRows g bufs = .ok (cs, g')) :
    cs.length = bufs.length ∧ ∀ c ∈ cs, Has c.result ipProducedRow := by
  induction bufs generalizing g cs with
  | nil =>
    obtain ⟨rfl, -⟩ := Prod.mk.inj (Except.ok.inj h)
    exact ⟨rfl, fun c hc => absurd hc List.not_mem_nil⟩
  | cons buf bufs ih =>
    obtain ⟨c, g₁, cs₁, hc, hcs, rfl⟩ := convertRows_cons_ok h
    obtain ⟨hlen, hmarks⟩ := ih hcs
    refine ⟨by rw [List.length_cons, List.length_cons, hlen], fun d hd => ?_⟩
    rcases List.mem_cons.mp hd with rfl | hd
    · exact (convert_marks hc).1
    · exact hmarks d hd

theorem convertImage_ok {g : Inst} {bufs : List (List UInt8)} {cs : List Converted}
    (h : convertImage g bufs = .ok cs) :
    ∃ cs₁ g' c, convertRows g bufs = .ok (cs₁, g') ∧ cs = cs₁ ++ [c] ∧ c.outBuf = [] ∧
      ¬ Has c.result ipProducedRow := by
  obtain ⟨⟨cs₁, g'⟩, hrows, h₁⟩ := steps_of_ok h
  obtain ⟨⟨c, g₂⟩, hflush, h₂⟩ := steps_of_ok h₁
  obtain ⟨rfl, -⟩ := Prod.mk.inj (Except.ok.inj hflush)
  exact ⟨cs₁, g', _, hrows, (Except.ok.inj h₂).symm, rfl, flush_unmarked⟩

theorem convertImage_of_rows {g g' : Inst} {bufs : List (List UInt8)} {cs₁ : List Converted}
    (h : convertRows g bufs = .ok (cs₁, g')) :
    ∃ c, convertImage g bufs = .ok (cs₁ ++ [c]) ∧ c.outBuf = [] ∧
      ¬ Has c.result ipProducedRow := by
  refine ⟨⟨ipDone, 0, g'.dwInNextPos, 0, g'.dwOutNextPos, [], 0⟩, ?_, rfl, flush_unmarked⟩
  rw [convertImage, h]
  rfl

theorem counted_of_rows {bufs : List (List UInt8)} {cs₁ : List Converted} {c : Converted}
    (hlen : cs₁.length = bufs.length) (hmarks : ∀ d ∈ cs₁, Has d.result ipProducedRow)
    (hc : ¬ Has c.result ipProducedRow) :
    ((cs₁ ++ [c]).filter fun d => Has d.result ipProducedRow).length = bufs.length := by
  have hall : (cs₁.filter fun d => Has d.result ipProducedRow) = cs₁ :=
    List.filter_eq_self.mpr fun d hd => decide_eq_true (hmarks d hd)
  have hnone : ([c].filter fun d => Has d.result ipProducedRow) = [] :=
    List.filter_eq_nil_iff.mpr fun d hd => by
      rw [List.mem_singleton.mp hd, decide_eq_true_eq]
      exact hc
  rw [List.filter_append, hall, hnone, List.append_nil, hlen]

/-- No row is dropped: `n` rows are still to come. -/
structure Whole (g : Inst) (n : Nat) : Prop where
  top : g.dwTop = 0
  room : g.dwOutRows.toNat + n ≤ g.dwMaxOutRows.toNat
  inside : 0 < g.dwOutBytesPerRow.toNat →
    g.dwLeftCropBytes.toNat + g.dwOutBytesPerRow.toNat ≤ g.dwInBytesPerRow.toNat

theorem Whole.shows {g : Inst} {bufs : List (List UInt8)} (hw : Whole g bufs.length)
    (hlen : ∀ buf ∈ bufs, g.dwInBytesPerRow.toNat ≤ buf.length) :
    ∃ cs g', convertRows g bufs = .ok (cs, g') ∧ cs.length = bufs.length ∧
      ∀ (i : Nat) (buf : List UInt8) (c : Converted), bufs[i]? = some buf → cs[i]? = some c →
        c.outBuf = (buf.drop g.dwLeftCropBytes.toNat).take g.dwOutBytesPerRow.toNat ∧
          c.copiedFrom = g.dwLeftCropBytes.toNat := by
  induction bufs generalizing g with
  | nil => exact ⟨[], g, rfl, rfl, fun i buf c hbuf => nomatch hbuf⟩
  | cons buf bufs ih =>
    have hroom : g.dwOutRows.toNat + (bufs.length + 1) ≤ g.dwMaxOutRows.toNat := hw.room
    have hshown : outBytes g = g.dwOutBytesPerRow := by
      refine if_neg ?_
      rintro (h | h)
      · rw [hw.top, UInt32.lt_iff_toNat_lt] at h
        exact absurd h (Nat.not_lt_zero _)
      · rw [UInt32.le_iff_toNat_le] at h
        lia
    have hbuf := hlen buf List.mem_cons_self
    have hcopy : 0 < g.dwOutBytesPerRow →
        g.dwLeftCropBytes.toNat + g.dwOutBytesPerRow.toNat ≤ buf.length := fun hpos =>
      Nat.le_trans (hw.inside (UInt32.lt_iff_toNat_lt.mp hpos)) hbuf
    have hcall : ∃ c g₁, convert g (some buf) (getActualBufSizes g).2 = .ok (c, g₁) ∧
        c.outBuf = (buf.drop g.dwLeftCropBytes.toNat).take g.dwOutBytesPerRow.toNat ∧
        c.copiedFrom = g.dwLeftCropBytes.toNat ∧
        g₁ = { g with
          dwInRows := g.dwInRows + 1
          dwOutRows := if 0 < g.dwOutBytesPerRow then g.dwOutRows + 1 else g.dwOutRows
          dwInNextPos := g.dwInNextPos + g.dwInBytesPerRow
          dwOutNextPos := g.dwOutNextPos + g.dwOutBytesPerRow } := by
      simp only [convert, hshown, getActualBufSizes, require_pos hbuf,
        require_pos (UInt32.le_refl _), require_pos hcopy]
      exact ⟨_, _, rfl, rfl, rfl, rfl⟩
    obtain ⟨c, g₁, hc, hout, hfrom, hg₁⟩ := hcall
    have hw₁ : Whole g₁ bufs.length := by
      subst hg₁
      refine ⟨hw.top, ?_, hw.inside⟩
      show (if 0 < g.dwOutBytesPerRow then g.dwOutRows + 1 else g.dwOutRows).toNat + bufs.length
        ≤ g.dwMaxOutRows.toNat
      have hmax := g.dwMaxOutRows.toNat_lt
      split
      · rw [UInt32.toNat_add, Nat.mod_eq_of_lt (by simp only [UInt32.toNat_one]; lia),
          UInt32.toNat_one]
        lia
      · lia
    have hkeep : g₁.dwInBytesPerRow = g.dwInBytesPerRow ∧
        g₁.dwLeftCropBytes = g.dwLeftCropBytes ∧ g₁.dwOutBytesPerRow = g.dwOutBytesPerRow := by
      subst hg₁
      exact ⟨rfl, rfl, rfl⟩
    obtain ⟨hin, hleft, hbytes⟩ := hkeep
    obtain ⟨cs, g', hcs, hcount, hrows⟩ := ih hw₁ fun b hb => by
      rw [hin]
      exact hlen b (List.mem_cons_of_mem buf hb)
    rw [hleft, hbytes] at hrows
    refine ⟨c :: cs, g', ?_, by rw [List.length_cons, List.length_cons, hcount], ?_⟩
    · rw [convertRows, hc]
      show (convertRows g₁ bufs >>= _) = _
      rw [hcs]
      rfl
    · rintro (_ | i) b d hb hd
      · obtain rfl := Option.some.inj hb
        obtain rfl := Option.some.inj hd
        exact ⟨hout, hfrom⟩
      · exact hrows i b d hb hd

/-! ## Which images are cropped as they should be -/

/-- The window of a row: its pixels are pixels of the row, and it begins on a byte. -/
def WindowInRow (traits : IpImageTraits) (spec : XformSpec) : Prop :=
  0 ≤ leftEdge traits spec ∧
    leftEdge traits spec + outWidth traits spec ≤ traits.iPixelsPerRow ∧
    (8 : Int) ∣ traits.iBitsPerPixel * leftEdge traits spec

/-- The condition for an image of `n` rows: no row is dropped, and the window fits. -/
def RowsFit (traits : IpImageTraits) (spec : XformSpec) (n : Nat) : Prop :=
  n = 0 ∨ spec.top = 0 ∧ n ≤ (maxOutRows spec).toNat ∧
    (outWidth traits spec = 0 ∨ WindowInRow traits spec)

section Window

variable {traits : IpImageTraits} {spec : XformSpec} {g : Inst}

theorem WindowInRow.bytes_le (hw : WindowInRow traits spec) (hs : Started traits spec g) :
    g.dwLeftCropBytes.toNat + g.dwOutBytesPerRow.toNat ≤ bytesPerRow traits ∧
      8 * (g.dwLeftCropBytes.toNat : Int) = traits.iBitsPerPixel * leftEdge traits spec := by
  obtain ⟨hleft, hright, k, hk⟩ := hw
  have hsum : traits.iBitsPerPixel * leftEdge traits spec
      + traits.iBitsPerPixel * outWidth traits spec
        ≤ traits.iBitsPerPixel * traits.iPixelsPerRow := by
    rw [← Int.mul_add]
    exact Int.mul_le_mul_of_nonneg_left hright hs.bpp.le
  have hpos : 0 ≤ traits.iBitsPerPixel * outWidth traits spec :=
    Int.mul_nonneg hs.bpp.le hs.outWidth
  have hedge : 0 ≤ traits.iBitsPerPixel * leftEdge traits spec := Int.mul_nonneg hs.bpp.le hleft
  rw [hs.left hleft, hs.outBytes, bytesPerRow, bytesFor, bytesFor, bytesFor]
  lia

theorem WindowInRow.shows (hw : WindowInRow traits spec) (hs : Started traits spec g)
    {row : List UInt8} {c : Converted} (hlen : g.dwInBytesPerRow.toNat ≤ row.length)
    (hout : c.outBuf = (row.drop g.dwLeftCropBytes.toNat).take g.dwOutBytesPerRow.toNat)
    (hfrom : c.copiedFrom = g.dwLeftCropBytes.toNat) : ShowsWindow traits spec row c := by
  obtain ⟨hbytes, hstart⟩ := hw.bytes_le hs
  rw [hs.inBytes] at hlen
  have hcount : c.outBuf.length = g.dwOutBytesPerRow.toNat := by
    rw [hout, List.length_take, List.length_drop]
    lia
  refine ⟨by rw [hcount, hs.outBytes], fun j hj => by lia, fun x hx => ?_⟩
  obtain ⟨hleft, hright, -⟩ := hw
  refine ⟨by lia, by lia, pixel_eq_iff.mpr fun j hj => ?_⟩
  obtain ⟨bpp, hbpp⟩ := Int.eq_ofNat_of_zero_le hs.bpp.le
  obtain ⟨left, hedge⟩ := Int.eq_ofNat_of_zero_le hleft
  obtain ⟨width, hwidth⟩ := Int.eq_ofNat_of_zero_le hs.outWidth
  rw [hbpp, hedge] at hstart
  rw [hwidth] at hx
  have hbits := (bytesFor_bounds (bpp * width)).1
  have hcover : g.dwOutBytesPerRow.toNat = bytesFor (bpp * width) := by
    rw [hs.outBytes, hbpp, hwidth]
    rfl
  have hpixel : bpp * (x + 1) ≤ bpp * width := Nat.mul_le_mul_left bpp (by lia)
  rw [Nat.mul_add] at hpixel
  rw [hbpp, Int.toNat_natCast] at hj ⊢
  have htarget : (leftEdge traits spec + x).toNat = left + x := by lia
  have hshift : 8 * g.dwLeftCropBytes.toNat = bpp * left := by exact_mod_cast hstart
  rw [htarget, hout, bit_take (by lia), bit_drop, hshift, Nat.mul_add, Nat.add_assoc]

theorem ShowsWindow.begins_on_byte (hs : Started traits spec g) {c : Converted} {k : Nat}
    (hleft : 0 ≤ leftEdge traits spec)
    (hright : leftEdge traits spec + outWidth traits spec ≤ traits.iPixelsPerRow)
    (hwidth : 0 < outWidth traits spec)
    (hout : c.outBuf = ((oneBit (bytesPerRow traits)
      (traits.iBitsPerPixel * leftEdge traits spec).toNat).drop g.dwLeftCropBytes.toNat).take k)
    (h : ShowsWindow traits spec (oneBit (bytesPerRow traits)
      (traits.iBitsPerPixel * leftEdge traits spec).toNat) c) :
    (8 : Int) ∣ traits.iBitsPerPixel * leftEdge traits spec := by
  obtain ⟨bpp, hbpp⟩ := Int.eq_ofNat_of_zero_le hs.bpp.le
  obtain ⟨left, hedge⟩ := Int.eq_ofNat_of_zero_le hleft
  obtain ⟨width, hwidth'⟩ := Int.eq_ofNat_of_zero_le hs.width.le
  have hbpos : 0 < bpp := by
    have := hs.bpp
    lia
  have hstart := hs.left hleft
  have hpix := (h.pixels 0 hwidth).2.2
  have htotal : bytesPerRow traits = bytesFor (bpp * width) := by
    rw [bytesPerRow, hbpp, hwidth']
    rfl
  have hedgeBits : (traits.iBitsPerPixel * leftEdge traits spec).toNat = bpp * left := by
    rw [hbpp, hedge]
    rfl
  rw [hedgeBits] at hstart hout hpix
  rw [hbpp, hedge, Int.toNat_natCast, Nat.cast_zero, Int.add_zero, Int.toNat_natCast, htotal]
    at hpix
  rw [htotal] at hout
  -- the pixel at the left edge is the one with the bit
  have hcell : bpp * (left + 1) ≤ bpp * width := Nat.mul_le_mul_left bpp (by lia)
  have hinside : bpp * left < 8 * bytesFor (bpp * width) := by
    have := (bytesFor_bounds (bpp * width)).1
    rw [Nat.mul_add] at hcell
    lia
  have hbit := pixel_eq_iff.mp hpix 0 hbpos
  rw [Nat.mul_zero, Nat.add_zero, Nat.add_zero, bit_oneBit hinside, decide_eq_true rfl] at hbit
  by_contra hdiv
  have hnot : 8 * bytesFor (bpp * left) ≠ bpp * left := by
    intro heq
    refine hdiv ⟨bytesFor (bpp * left), ?_⟩
    rw [hbpp, hedge]
    exact_mod_cast heq.symm
  -- the bytes that were copied have no bit there
  have hzero : bit c.outBuf 0 = some true → False := by
    intro htrue
    have hk : 0 < k := by
      rcases Nat.eq_zero_or_pos k with rfl | hk
      · rw [hout, List.take_zero] at htrue
        cases htrue
      · exact hk
    rw [hout, hstart, bit_take (by lia), bit_drop, Nat.add_zero] at htrue
    by_cases hin : 8 * bytesFor (bpp * left) < 8 * bytesFor (bpp * width)
    · rw [bit_oneBit hin, decide_eq_false hnot] at htrue
      cases htrue
    · rw [bit, List.getElem?_eq_none
        (by rw [Bits.bitsOf_length, oneBit_length hinside]; lia)] at htrue
      cases htrue
  exact hzero hbit

theorem Crops.all_kept {rows : List (List UInt8)} {cs : List Converted}
    (hrun : convertImage g rows = .ok cs) (h : Crops traits spec rows cs) :
    rowsKept spec rows.length = rows.length := by
  obtain ⟨cs₁, g', c, hrows, rfl, -, hc⟩ := convertImage_ok hrun
  obtain ⟨hlen, hmarks⟩ := convertRows_marks hrows
  rw [← h.counted, counted_of_rows hlen hmarks hc]

theorem RowsFit.crops (hs : Started traits spec g) {rows : List (List UInt8)}
    (hfit : RowsFit traits spec rows.length)
    (hlen : ∀ row ∈ rows, g.dwInBytesPerRow.toNat ≤ row.length) :
    ∃ cs, convertImage g rows = .ok cs ∧ Crops traits spec rows cs := by
  rcases hfit with hnone | ⟨htop, hmax, hwindow⟩
  · obtain rfl := List.length_eq_zero_iff.mp hnone
    obtain ⟨c, hrun, hout, hc⟩ := convertImage_of_rows (rfl : convertRows g [] = .ok ([], g))
    refine ⟨[c], hrun, rfl, fun i row d hrow => (nomatch hrow), fun i d hd _ => ?_, ?_⟩
    · rcases i with _ | i
      · rwa [← Option.some.inj hd]
      · exact nomatch hd
    · have hnil : ([] : List Converted).length = ([] : List (List UInt8)).length := rfl
      have hcount := counted_of_rows hnil (fun d hd => nomatch hd) hc
      rw [List.nil_append] at hcount
      rw [hcount, rowsKept, List.length_nil, Nat.zero_sub, Nat.min_zero]
  have hkept : rowsKept spec rows.length = rows.length := by
    rw [rowsKept, htop]
    exact Nat.min_eq_right hmax
  have hinside : 0 < g.dwOutBytesPerRow.toNat →
      g.dwLeftCropBytes.toNat + g.dwOutBytesPerRow.toNat ≤ g.dwInBytesPerRow.toNat := by
    intro hpos
    rcases hwindow with hwidth | hw
    · rw [hs.outBytes, hwidth, Int.mul_zero] at hpos
      exact absurd hpos (by decide)
    · rw [hs.inBytes]
      exact (hw.bytes_le hs).1
  have hwhole : Whole g rows.length :=
    ⟨by rw [hs.top, htop], by rw [hs.outRows, hs.max]; simpa using hmax, hinside⟩
  obtain ⟨cs₁, g', hrows, hcount, hshown⟩ := hwhole.shows hlen
  obtain ⟨hlen₁, hmarks⟩ := convertRows_marks hrows
  obtain ⟨c, hrun, hout, hc⟩ := convertImage_of_rows hrows
  have hrow : ∀ (i : Nat) (d : Converted), (cs₁ ++ [c])[i]? = some d → i < rows.length →
      cs₁[i]? = some d := fun i d hd hi => by
    rwa [List.getElem?_append_left (by omega)] at hd
  refine ⟨cs₁ ++ [c], hrun, by rw [List.length_append, hcount]; rfl, ?_, ?_, ?_⟩
  · intro i row d hi hd _ _
    have hlt : i < rows.length := (List.getElem?_eq_some_iff.mp hi).1
    obtain ⟨hd₁, hfrom⟩ := hshown i row d hi (hrow i d hd hlt)
    rcases hwindow with hwidth | hw
    · have hnone : g.dwOutBytesPerRow.toNat = 0 := by
        rw [hs.outBytes, hwidth, Int.mul_zero]
        rfl
      rw [hnone, List.take_zero] at hd₁
      refine ⟨?_, fun j hj => ?_, fun x hx => ?_⟩
      · rw [hd₁, hwidth, Int.mul_zero]
        rfl
      · rw [hd₁] at hj
        exact absurd hj (Nat.not_lt_zero j)
      · omega
    · exact hw.shows hs (hlen row (List.mem_of_getElem? hi)) hd₁ hfrom
  · intro i d hd hi
    rw [hkept, htop] at hi
    have hge : rows.length ≤ i := by
      by_contra hlt
      exact hi ⟨Nat.zero_le i, by simpa using hlt⟩
    rw [List.getElem?_append_right (by omega)] at hd
    obtain rfl := List.mem_singleton.mp (List.mem_of_getElem? hd)
    exact hout
  · rw [counted_of_rows hlen₁ hmarks hc, hkept]

theorem first_call {buf : List UInt8} {bufs : List (List UInt8)} {cs : List Converted}
    (h : convertImage g (buf :: bufs) = .ok cs) :
    ∃ c, cs[0]? = some c ∧
      c.outBuf = (buf.drop g.dwLeftCropBytes.toNat).take (outBytes g).toNat := by
  obtain ⟨cs₁, g', c, hrows, rfl, -, -⟩ := convertImage_ok h
  obtain ⟨d, g₁, cs₂, hd, -, rfl⟩ := convertRows_cons_ok hrows
  exact ⟨d, rfl, (convert_marks hd).2⟩

theorem replicate_image {n : Nat} (row : List UInt8) (hrow : row.length = bytesPerRow traits)
    (hs : Started traits spec g)
    (h : ∀ rows : List (List UInt8), rows.length = n →
      (∀ row ∈ rows, g.dwInBytesPerRow.toNat ≤ row.length) →
        ∃ cs, convertImage g rows = .ok cs ∧ Crops traits spec rows cs) :
    ∃ cs, convertImage g (List.replicate n row) = .ok cs ∧
      Crops traits spec (List.replicate n row) cs :=
  h _ List.length_replicate fun r hr => by
    rw [List.eq_of_mem_replicate hr, hrow, hs.inBytes]

end Window

/-- Images of `n` rows are cropped as they should be exactly when no row is dropped and the
window fits. -/
theorem crops_iff {traits : IpImageTraits} {spec : XformSpec} {g : Inst} {n : Nat}
    (hstart : start traits spec = .ok g) :
    (∀ rows : List (List UInt8), rows.length = n →
      (∀ row ∈ rows, g.dwInBytesPerRow.toNat ≤ row.length) →
        ∃ cs, convertImage g rows = .ok cs ∧ Crops traits spec rows cs) ↔
      RowsFit traits spec n := by
  have hs := started_of_start hstart
  constructor
  · intro h
    rcases n with _ | n
    · exact Or.inl rfl
    obtain ⟨cs, hrun, hcrops⟩ := replicate_image (List.replicate (bytesPerRow traits) 0)
      List.length_replicate hs h
    have hkept := hcrops.all_kept hrun
    rw [List.length_replicate, rowsKept] at hkept
    have htop : spec.top.toNat = 0 := by lia
    refine Or.inr ⟨UInt32.toNat_inj.mp htop, by lia, ?_⟩
    rcases hs.outWidth.eq_or_lt with hwidth | hwidth
    · exact Or.inl hwidth.symm
    have hfirst : 0 < spec.top.toNat + rowsKept spec (n + 1) := by
      rw [rowsKept]
      lia
    -- every pixel of the window is one of the row
    have hpixels : 0 ≤ leftEdge traits spec ∧
        leftEdge traits spec + outWidth traits spec ≤ traits.iPixelsPerRow := by
      obtain ⟨c, hc, -⟩ := first_call hrun
      have hshows := hcrops.kept 0 _ c rfl hc (by lia) (by rwa [List.length_replicate])
      have hleft := (hshows.pixels 0 hwidth).1
      have hright := (hshows.pixels (outWidth traits spec - 1).toNat (by lia)).2.1
      lia
    -- and its first pixel stands at the left edge
    have hinside : (traits.iBitsPerPixel * leftEdge traits spec).toNat
        < 8 * bytesPerRow traits := by
      have hmul : traits.iBitsPerPixel * (leftEdge traits spec + 1)
          ≤ traits.iBitsPerPixel * traits.iPixelsPerRow :=
        Int.mul_le_mul_of_nonneg_left (by lia) hs.bpp.le
      have hbits := (bytesFor_bounds (traits.iBitsPerPixel * traits.iPixelsPerRow).toNat).1
      have hbpp := hs.bpp
      have hedge : 0 ≤ traits.iBitsPerPixel * leftEdge traits spec :=
        Int.mul_nonneg hbpp.le hpixels.1
      rw [Int.mul_add] at hmul
      rw [bytesPerRow]
      lia
    obtain ⟨cs₂, hrun₂, hcrops₂⟩ := replicate_image
      (oneBit (bytesPerRow traits) (traits.iBitsPerPixel * leftEdge traits spec).toNat)
      (oneBit_length hinside) hs h
    obtain ⟨c, hc, hout⟩ := first_call hrun₂
    have hshows := hcrops₂.kept 0 _ c rfl hc (by lia) (by rwa [List.length_replicate])
    exact Or.inr ⟨hpixels.1, hpixels.2,
      hshows.begins_on_byte hs hpixels.1 hpixels.2 hwidth hout⟩
  · rintro hfit rows rfl hlen
    exact hfit.crops hs hlen

def greyTraits : IpImageTraits := ⟨2, 8, 1, 0x960000, 0x960000, 2, 1, 1⟩

def leftSpec : XformSpec := ⟨1, 0, 0, 0⟩

def topSpec : XformSpec := ⟨0, 0, 1, 0⟩

def greyInst (spec : XformSpec) (out left : UInt32) : Inst :=
  ⟨greyTraits, spec.left, spec.right, spec.top, maxOutRows spec, 2, out, left, 0, 0, 0, 0⟩

theorem crops_iff_left :
    (∀ rows : List (List UInt8), rows.length = 2 →
      (∀ row ∈ rows, (greyInst leftSpec 1 1).dwInBytesPerRow.toNat ≤ row.length) →
        ∃ cs, convertImage (greyInst leftSpec 1 1) rows = .ok cs ∧
          Crops greyTraits leftSpec rows cs) ↔ RowsFit greyTraits leftSpec 2 :=
  crops_iff rfl

/-- The row that is dropped at the top is reported as well. -/
theorem dropped_row_reported :
    start greyTraits topSpec = .ok (greyInst topSpec 2 0) ∧
      ¬ ∃ cs, convertImage (greyInst topSpec 2 0) [[1, 2], [3, 4]] = .ok cs ∧
        Crops greyTraits topSpec [[1, 2], [3, 4]] cs := by
  refine ⟨rfl, ?_⟩
  rintro ⟨cs, hrun, hcrops⟩
  have hkept := hcrops.all_kept hrun
  revert hkept
  decide

end Hplip.Ip.Crop
