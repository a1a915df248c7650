import Hplip.Lib.CInt
import Hplip.Lib.Loop
import Mathlib.Logic.Function.Basic

/-!
# The raster of a fax page (hpcupsfax.cpp)

`ProcessRasterData` makes a grey image of a page before it is encoded: a buffer of
`cupsHeight * widthMMR` white bytes, into which `RGB2Gray` puts the scan lines. The width of the
buffer is that of the page rounded up, or the one that the device class has; `RGB2Gray` goes by
`cupsWidth`.
-/

namespace Hplip.Hpijs.FaxPage

open CInt Loop

/-! ## The code -/

/-- What `ProcessRasterData` looks at in a page header for its buffers. -/
structure PageHeader where
  cupsWidth : UInt32
  cupsHeight : UInt32
  cupsBytesPerLine : UInt32

/-- `RGB2BW`. -/
def rgb2Bw (r g b : UInt8) : UInt8 :=
  UInt8.ofNat (((r.toNat <<< 2) + r.toNat + (g.toNat <<< 3) + g.toNat + (b.toNat <<< 1)) >>> 4)

/-- `RGB2Gray`, into the buffer of `size` bytes from `pGData` on. -/
def rgb2Gray (size : Nat) (pRGBData : List UInt8) (iNumPixels : Int) (pGData : Nat)
    (buf : Nat → UInt8) : Option (Nat → UInt8) :=
  (List.range iNumPixels.toNat).foldlM
    (fun buf i => do
      let r ← pRGBData[3 * i]?
      let g ← pRGBData[3 * i + 1]?
      let b ← pRGBData[3 * i + 2]?
      check (pGData + i < size)
      some (Function.update buf (pGData + i) (rgb2Bw r g b)))
    buf

section Page

variable (h : PageHeader) (deviceName : String)

/-- `widthMMR`. -/
def widthMmr : Int :=
  if deviceName = "HPFax4" then 1728
  else if deviceName = "HPFax2" then 2528
  else ofDword (((h.cupsWidth + 7) >>> 3) <<< 3)

/-- `iInputBufSize`: the product is unsigned, the variable is not. -/
def iInputBufSize : Int := ofDword (toDword (widthMmr h deviceName) * h.cupsHeight)

/-- The size that `malloc` is asked for. -/
def mallocSize : Nat := (iInputBufSize h deviceName % 2 ^ 64).toNat

/-- The pixels of a call of `RGB2Gray`. -/
def numPixels : Int := ofDword h.cupsWidth

/-- Where the call for a scan line begins in the buffer. -/
def rowStart (i : Nat) : Nat := (UInt32.ofNat i * toDword (widthMmr h deviceName)).toNat

/-- The bytes that it stores to. -/
def cells (i : Nat) : List Nat :=
  (List.range (numPixels h).toNat).map (rowStart h deviceName i + ·)

/-- The part of `ProcessRasterData` that fills the buffer; `grants` says which requests for memory
are granted, `lines` what the raster library has put into `pThisScanLine`. Without memory the
function gives up, or is left by the exception of `new`. -/
def rasterise (grants : Nat → Bool) (lines : Nat → List UInt8) : Option (Option (Nat → UInt8)) :=
  if grants (mallocSize h deviceName) ∧ grants h.cupsBytesPerLine.toNat then do
    let buf ← (List.range h.cupsHeight.toNat).foldlM
      (fun buf i =>
        rgb2Gray (mallocSize h deviceName) (lines i) (numPixels h) (rowStart h deviceName i) buf)
      fun _ => 0xFF
    some (some buf)
  else some none

/-! ## What is to be done -/

/-- The width that a row is meant to have. -/
def rowWidth : Nat :=
  if deviceName = "HPFax4" then 1728
  else if deviceName = "HPFax2" then 2528
  else (h.cupsWidth.toNat + 7) / 8 * 8

/-- A pixel of a scan line. -/
def grey (line : List UInt8) (x : Nat) : UInt8 :=
  rgb2Bw (line.getD (3 * x) 0) (line.getD (3 * x + 1) 0) (line.getD (3 * x + 2) 0)

/-- A scan line of so many pixels, cut or padded with white. -/
def greyRow (line : List UInt8) (x : Nat) : UInt8 :=
  if x < h.cupsWidth.toNat then grey line x else 0xFF

/-- The buffer has its size, no call leaves the scan line or its own row, and the rows are those of
the scan lines, whatever is in them. -/
structure Rasterises (grants : Nat → Bool) : Prop where
  size : mallocSize h deviceName = h.cupsHeight.toNat * rowWidth h deviceName
  page : ∀ lines : Nat → List UInt8, (∀ i, (lines i).length = h.cupsBytesPerLine.toNat) →
    Returns (rasterise h deviceName grants lines) fun r => ∀ buf, r = some buf →
      (∀ i < h.cupsHeight.toNat, ∀ c ∈ cells h deviceName i,
        i * rowWidth h deviceName ≤ c ∧ c < (i + 1) * rowWidth h deviceName) ∧
      ∀ i < h.cupsHeight.toNat, ∀ x < rowWidth h deviceName,
        buf (i * rowWidth h deviceName + x) = greyRow h (lines i) x

/-- The size is a positive `int`, and a page that there is memory for is no wider than its row and
has three bytes for each pixel. -/
def Fits (grants : Nat → Bool) : Prop :=
  h.cupsHeight.toNat * rowWidth h deviceName < 2 ^ 31 ∧
    (grants (h.cupsHeight.toNat * rowWidth h deviceName) → grants h.cupsBytesPerLine.toNat →
      h.cupsHeight = 0 ∨
        (h.cupsWidth.toNat ≤ rowWidth h deviceName ∧
          3 * h.cupsWidth.toNat ≤ h.cupsBytesPerLine.toNat))

end Page

variable {h : PageHeader} {deviceName : String} {grants : Nat → Bool}

/-! ## A scan line -/

section Line

variable {size pGData : Nat} {line : List UInt8} {n : Int} {buf buf' : Nat → UInt8}

/-- A call that stays where it should: its cells are the pixels, the others as they were. -/
theorem rgb2Gray_returns (hline : 3 * n.toNat ≤ line.length) (hroom : pGData + n.toNat ≤ size) :
    Returns (rgb2Gray size line n pGData buf) fun buf' =>
      (∀ x < n.toNat, buf' (pGData + x) = grey line x) ∧
        ∀ c, c < pGData ∨ pGData + n.toNat ≤ c → buf' c = buf c := by
  refine Returns.foldlM_range (fun k (b : Nat → UInt8) => (∀ x < k, b (pGData + x) = grey line x) ∧
      ∀ c, c < pGData ∨ pGData + k ≤ c → b c = buf c)
    ⟨fun x hx => absurd hx (Nat.not_lt_zero x), fun _ _ => rfl⟩ ?_
  rintro k hk b ⟨hdone, hrest⟩
  have hget {p : Nat} (hp : p < line.length) : (line)[p]? = some (line.getD p 0) := by
    rw [List.getD_eq_getElem?_getD, List.getElem?_eq_getElem hp]
    rfl
  have hpixel : (do
      let r ← (line)[3 * k]?
      let g ← (line)[3 * k + 1]?
      let b' ← (line)[3 * k + 2]?
      check (pGData + k < size)
      some (Function.update b (pGData + k) (rgb2Bw r g b')))
        = some (Function.update b (pGData + k) (grey line k)) := by
    rw [hget (by omega), hget (by omega), hget (by omega), check_pos (by omega)]
    rfl
  refine ⟨_, hpixel, fun x hx => ?_, fun c hc => ?_⟩
  · rcases Nat.lt_succ_iff_lt_or_eq.mp hx with hlt | rfl
    · rw [Function.update_of_ne (by omega)]
      exact hdone x hlt
    · exact Function.update_self ..
  · rw [Function.update_of_ne (by omega)]
    exact hrest c (by omega)

theorem length_of_rgb2Gray (hcall : rgb2Gray size line n pGData buf = some buf') :
    3 * n.toNat ≤ line.length := by
  by_contra hshort
  have hpos : n.toNat - 1 < n.toNat := by omega
  obtain ⟨b, b', -, hround⟩ := foldlM_range_rounds hcall hpos
  -- the last pixel is read
  obtain ⟨_, -, hround⟩ := Option.bind_eq_some_iff.mp hround
  obtain ⟨_, -, hround⟩ := Option.bind_eq_some_iff.mp hround
  obtain ⟨_, hlast, -⟩ := Option.bind_eq_some_iff.mp hround
  obtain ⟨hlt, -⟩ := List.getElem?_eq_some_iff.mp hlast
  omega

end Line

/-! ## Sizes -/

theorem toDword_ofDword (d : UInt32) : toDword (ofDword d) = d := by
  have hlt := d.toNat_lt
  refine UInt32.toNat_inj.mp ?_
  rw [toDword, UInt32.toNat_ofNat']
  unfold ofDword
  split <;> omega

theorem toNat_widthMmr (h : PageHeader) (deviceName : String) :
    (toDword (widthMmr h deviceName)).toNat = rowWidth h deviceName % 2 ^ 32 := by
  unfold widthMmr rowWidth
  split
  · rfl
  · split
    · rfl
    · have hlt := h.cupsWidth.toNat_lt
      rw [toDword_ofDword, UInt32.toNat_shiftLeft, UInt32.toNat_shiftRight, UInt32.toNat_add,
        Nat.shiftLeft_eq, Nat.shiftRight_eq_div_pow]
      show (h.cupsWidth.toNat + 7) % 2 ^ 32 / 2 ^ 3 * 2 ^ 3 % 2 ^ 32 = _
      omega

theorem rowWidth_le (h : PageHeader) (deviceName : String) : rowWidth h deviceName ≤ 2 ^ 32 := by
  have hlt := h.cupsWidth.toNat_lt
  unfold rowWidth
  split
  · decide
  · split
    · decide
    · omega

/-- The buffer has the size of its rows exactly if that is an `int`. -/
theorem mallocSize_eq_iff : mallocSize h deviceName = h.cupsHeight.toNat * rowWidth h deviceName
    ↔ h.cupsHeight.toNat * rowWidth h deviceName < 2 ^ 31 := by
  have hlt := h.cupsHeight.toNat_lt
  have hbound : h.cupsHeight.toNat * rowWidth h deviceName ≤ (2 ^ 32 - 1) * 2 ^ 32 :=
    Nat.mul_le_mul (by omega) (rowWidth_le h deviceName)
  have hproduct : (toDword (widthMmr h deviceName) * h.cupsHeight).toNat
      = h.cupsHeight.toNat * rowWidth h deviceName % 2 ^ 32 := by
    rw [UInt32.toNat_mul, toNat_widthMmr, Nat.mod_mul_mod, Nat.mul_comm]
  unfold mallocSize iInputBufSize ofDword
  rw [hproduct]
  generalize h.cupsHeight.toNat * rowWidth h deviceName = size at hbound ⊢
  split <;> omega

section Sizes

variable (hsize : h.cupsHeight.toNat * rowWidth h deviceName < 2 ^ 31)

include hsize

theorem rowStart_eq {i : Nat} (hi : i < h.cupsHeight.toNat) :
    rowStart h deviceName i = i * rowWidth h deviceName := by
  have hlt := h.cupsHeight.toNat_lt
  have hle := Nat.mul_le_mul_right (rowWidth h deviceName) (Nat.le_of_lt hi)
  rw [rowStart, UInt32.toNat_mul, toNat_widthMmr, UInt32.toNat_ofNat', ← Nat.mul_mod,
    Nat.mod_eq_of_lt (by omega)]

theorem rowWidth_lt (hpage : 0 < h.cupsHeight.toNat) : rowWidth h deviceName < 2 ^ 31 :=
  Nat.lt_of_le_of_lt (Nat.le_mul_of_pos_left _ hpage) hsize

end Sizes

theorem numPixels_eq (hlt : h.cupsWidth.toNat < 2 ^ 31) :
    (numPixels h).toNat = h.cupsWidth.toNat := by
  rw [numPixels, ofDword, if_pos hlt, Int.toNat_natCast]

theorem numPixels_wide (hge : 2 ^ 31 ≤ h.cupsWidth.toNat) : (numPixels h).toNat = 0 := by
  have hlt := h.cupsWidth.toNat_lt
  rw [numPixels, ofDword, if_neg (by omega)]
  omega

/-! ## Pages -/

theorem rasterise_rows {lines : Nat → List UInt8}
    (hlines : ∀ i, (lines i).length = h.cupsBytesPerLine.toNat)
    (hsize : h.cupsHeight.toNat * rowWidth h deviceName < 2 ^ 31)
    (hwidth : h.cupsWidth.toNat < 2 ^ 31) (hrow : h.cupsWidth.toNat ≤ rowWidth h deviceName)
    (hbytes : 3 * h.cupsWidth.toNat ≤ h.cupsBytesPerLine.toNat) :
    Returns ((List.range h.cupsHeight.toNat).foldlM (fun buf i =>
        rgb2Gray (mallocSize h deviceName) (lines i) (numPixels h) (rowStart h deviceName i) buf)
      fun _ => 0xFF) fun buf => ∀ i < h.cupsHeight.toNat, ∀ x < rowWidth h deviceName,
        buf (i * rowWidth h deviceName + x) = greyRow h (lines i) x := by
  have hpixels := numPixels_eq hwidth
  -- the rows that are done, and behind them the white ones
  refine (Returns.foldlM_range (fun k (buf : Nat → UInt8) =>
      (∀ i < k, ∀ x < rowWidth h deviceName,
        buf (i * rowWidth h deviceName + x) = greyRow h (lines i) x) ∧
      ∀ c, k * rowWidth h deviceName ≤ c → buf c = 0xFF)
    ⟨fun i hi => absurd hi (Nat.not_lt_zero i), fun _ _ => rfl⟩ ?_).mono fun _ hdone => hdone.1
  rintro k hk buf ⟨hdone, hwhite⟩
  have hend : (k + 1) * rowWidth h deviceName ≤ mallocSize h deviceName := by
    rw [mallocSize_eq_iff.mpr hsize]
    exact Nat.mul_le_mul_right _ hk
  have hnext : (k + 1) * rowWidth h deviceName
      = k * rowWidth h deviceName + rowWidth h deviceName := Nat.succ_mul _ _
  rw [rowStart_eq hsize hk]
  refine (rgb2Gray_returns (by rw [hpixels, hlines]; exact hbytes)
    (by rw [hpixels]; omega)).mono ?_
  rintro buf' ⟨hcells, hother⟩
  rw [hpixels] at hcells hother
  constructor
  · intro i hi x hx
    rcases Nat.lt_succ_iff_lt_or_eq.mp hi with hlt | rfl
    · have hbelow := Nat.mul_le_mul_right (rowWidth h deviceName) (Nat.succ_le_of_lt hlt)
      rw [Nat.succ_mul] at hbelow
      rw [hother _ (by omega)]
      exact hdone i hlt x hx
    · unfold greyRow
      by_cases hin : x < h.cupsWidth.toNat
      · rw [if_pos hin]
        exact hcells x hin
      · rw [if_neg hin, hother _ (by omega)]
        exact hwhite _ (by omega)
  · intro c hc
    rw [hother c (by omega)]
    exact hwhite c (by omega)

theorem rasterise_granted (lines : Nat → List UInt8)
    (hgrants : grants (mallocSize h deviceName) ∧ grants h.cupsBytesPerLine.toNat) :
    rasterise h deviceName grants lines = ((List.range h.cupsHeight.toNat).foldlM (fun buf i =>
        rgb2Gray (mallocSize h deviceName) (lines i) (numPixels h) (rowStart h deviceName i) buf)
      fun _ => 0xFF).map some := by
  rw [rasterise, if_pos hgrants, Option.map_eq_bind]
  rfl

theorem rasterises_of_fits (hfits : Fits h deviceName grants) :
    Rasterises h deviceName grants where
  size := mallocSize_eq_iff.mpr hfits.1
  page lines hlines := by
    obtain ⟨hsize, hpage⟩ := hfits
    by_cases hgrants : grants (mallocSize h deviceName) ∧ grants h.cupsBytesPerLine.toNat
    · rw [rasterise_granted lines hgrants]
      rw [mallocSize_eq_iff.mpr hsize] at hgrants
      rcases hpage hgrants.1 hgrants.2 with hzero | ⟨hrow, hbytes⟩
      · -- no row is asked for
        have hnone : h.cupsHeight.toNat = 0 := congrArg UInt32.toNat hzero
        rw [hnone]
        exact Returns.pure fun buf _ =>
          ⟨fun i hi => absurd hi (Nat.not_lt_zero i), fun i hi => absurd hi (Nat.not_lt_zero i)⟩
      · by_cases hpos : 0 < h.cupsHeight.toNat
        · have hlt := rowWidth_lt hsize hpos
          have hwidth : h.cupsWidth.toNat < 2 ^ 31 := Nat.lt_of_le_of_lt hrow hlt
          obtain ⟨buf, hbuf, hrows⟩ := rasterise_rows hlines hsize hwidth hrow hbytes
          refine ⟨some buf, by rw [hbuf]; rfl, ?_⟩
          rintro _ ⟨⟩
          refine ⟨fun i hi c hc => ?_, hrows⟩
          obtain ⟨x, hx, rfl⟩ := List.mem_map.mp hc
          have hx := List.mem_range.mp hx
          rw [numPixels_eq hwidth] at hx
          rw [rowStart_eq hsize hi, Nat.succ_mul]
          omega
        · rw [Nat.eq_zero_of_not_pos hpos]
          exact Returns.pure fun buf _ =>
            ⟨fun i hi => absurd hi (Nat.not_lt_zero i), fun i hi => absurd hi (Nat.not_lt_zero i)⟩
    · rw [rasterise, if_neg hgrants]
      exact Returns.pure fun buf hbuf => nomatch hbuf

theorem rowWidth_pos (hpos : 0 < h.cupsWidth.toNat) : 0 < rowWidth h deviceName := by
  unfold rowWidth
  split
  · decide
  · split
    · decide
    · omega

theorem grey_replicate (n x : Nat) : grey (List.replicate n 0) x = 0 := by
  have hget (p : Nat) : (List.replicate n (0 : UInt8)).getD p 0 = 0 := by
    rw [List.getD_eq_getElem?_getD, List.getElem?_replicate]
    split <;> rfl
  rw [grey, hget, hget, hget]
  decide

theorem fits_of_rasterises (hr : Rasterises h deviceName grants) : Fits h deviceName grants := by
  have hsize := mallocSize_eq_iff.mp hr.size
  refine ⟨hsize, fun hmalloc hnew => or_iff_not_imp_left.mpr fun hne => ?_⟩
  have hpos : 0 < h.cupsHeight.toNat := Nat.pos_of_ne_zero fun h0 => hne (UInt32.toNat_inj.mp h0)
  -- a page of black lines
  obtain ⟨r, hret, hgood⟩ := hr.page (fun _ => List.replicate h.cupsBytesPerLine.toNat 0)
    fun _ => List.length_replicate
  rw [rasterise_granted _ ⟨hr.size ▸ hmalloc, hnew⟩] at hret
  obtain ⟨buf, hbuf, rfl⟩ := Option.map_eq_some_iff.mp hret
  obtain ⟨hcells, hrows⟩ := hgood buf rfl
  by_cases hwidth : h.cupsWidth.toNat < 2 ^ 31
  · have hpixels := numPixels_eq hwidth
    constructor
    · by_contra hwide
      have hlast := hcells 0 hpos (rowStart h deviceName 0 + (h.cupsWidth.toNat - 1))
        (List.mem_map_of_mem (List.mem_range.mpr (by omega)))
      rw [rowStart_eq hsize hpos] at hlast
      omega
    · obtain ⟨_, _, -, hcall⟩ := foldlM_range_rounds hbuf hpos
      have hlen := length_of_rgb2Gray hcall
      rwa [hpixels, List.length_replicate] at hlen
  · -- no pixel is converted, and the row stays white
    have hge := Nat.le_of_not_lt hwidth
    have hwhite : (List.range h.cupsHeight.toNat).foldlM (fun buf i =>
        rgb2Gray (mallocSize h deviceName) (List.replicate h.cupsBytesPerLine.toNat 0)
          (numPixels h) (rowStart h deviceName i) buf) (fun _ => 0xFF) = some fun _ => 0xFF := by
      refine foldlM_range_eq (fun _ => some fun _ => 0xFF) rfl fun k _ => ?_
      show rgb2Gray _ _ _ _ _ = _
      rw [rgb2Gray, numPixels_wide hge]
      rfl
    have hfirst := hrows 0 hpos 0 (rowWidth_pos (by omega))
    rw [hbuf] at hwhite
    rw [Option.some.inj hwhite, greyRow, if_pos (by omega), grey_replicate] at hfirst
    have hfirst : (0xFF : UInt8) = 0 := hfirst
    exact absurd hfirst (by decide)

/-- **A page** becomes what it should exactly if it fits. -/
theorem rasterises_iff (h : PageHeader) (deviceName : String) (grants : Nat → Bool) :
    Rasterises h deviceName grants ↔ Fits h deviceName grants :=
  ⟨fits_of_rasterises, rasterises_of_fits⟩

/-- A page of 8.5 by 11 inches with 300 pixels to the inch is wider than the rows of its class. -/
theorem letter_spills : ¬ ∀ (h : PageHeader) (deviceName : String) (grants : Nat → Bool),
    Rasterises h deviceName grants := by
  intro hall
  obtain ⟨-, hpage⟩ := fits_of_rasterises
    (hall ⟨2550, 3300, 7650⟩ "HPFax2" fun n => decide (n < 2 ^ 31))
  rcases hpage (by decide) (by decide) with hzero | ⟨hrow, -⟩
  · exact absurd hzero (by decide)
  · exact absurd hrow (by decide)

end Hplip.Hpijs.FaxPage
