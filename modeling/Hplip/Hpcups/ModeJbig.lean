import Mathlib
import Hplip.Hpcups.CommonDefinitions
import Hplip.Hpcups.Compressor

/-!
# Bands for the JBIG encoder (ModeJbig.cpp, ModeJbig.h)

Rasters are collected in bands, each pixel doubled where the printer takes two bits of
it, and a full band is handed to an encoder that is a plug-in. A colour page has four
planes, one behind the other in the band's buffer: row `r` of the plane in slot `k` is
line `k * m_iLastRaster + r`. A page that ends within a band hands on what there is
with `Flush`, which makes `m_iLastRaster` the rows that came.
-/

namespace Hplip.Hpcups

inductive ZjPlatform
  | zjStream
  | zxStream
  | zjColor
  | zjColor2
  deriving DecidableEq, Repr

/-- The plug-in's encoder, from a width in pixels, a height and the bytes it is given to
the bytes it writes and those of its state. -/
abbrev Jbig := Nat → Nat → List UInt8 → List UInt8 × List UInt8

structure Encoded where
  plane : Nat
  iWidth : Nat
  iHeight : Nat
  bytes : List UInt8
  deriving DecidableEq, Repr

/-- The members of `ModeJbig` beyond those of its base class, and the calls of the
encoder. Pointers into the input buffer are offsets. -/
structure ModeJbig extends Compressor where
  m_iWidth : Nat
  m_iLastRaster : Nat
  m_iOrgHeight : Nat
  m_pszCurPtr : Nat
  m_pszInputRasterData : Mem
  m_iPlanes : Nat
  m_iBPP : Nat
  m_ezj_platform : ZjPlatform
  m_iP : Nat → Nat
  m_iCurRasterPerPlane : Nat → Nat
  m_iPlaneNumber : Nat
  m_iCurrentPlane : Nat
  encoded : List Encoded

namespace ModeJbig

/-! ## The compressor -/

/-- The sixteen values of `szByte1` and `szByte2`: the bits of a nibble, each in front of
a zero. -/
def spread : List UInt8 :=
  [0, 2, 8, 10, 32, 34, 40, 42, 128, 130, 136, 138, 160, 162, 168, 170]

def szByte1 (b : UInt8) : UInt8 := spread.getD (b.toNat / 16) 0

def szByte2 (b : UInt8) : UInt8 := spread.getD (b.toNat % 16) 0

/-- `b |= (b >> 1)`. -/
def double (b : UInt8) : UInt8 := b ||| (b >>> 1)

/-- `m_iP` for four planes. -/
def planeOrder (platform : ZjPlatform) : Nat → Nat
  | 0 => 3
  | 1 => if platform = .zjColor2 then 2 else 0
  | 2 => 1
  | 3 => if platform = .zjColor2 then 0 else 2
  | _ => 0

/-- `ModeJbig::ModeJbig` and `Init`; `seedRow` is what the base class has without one. -/
def init (plugin : Bool) (rasterSize iLastRaster iPlanes iBPP : Nat) (platform : ZjPlatform)
    (heap seedRow : Mem) : Except DriverError ModeJbig :=
  if ¬ plugin then .error .pluginLibraryMissing
  else
    let m_iWidth := (rasterSize + 31) / 32 * 4
    .ok {
      compressBuf := []
      seedRow := seedRow
      compressedsize := 0
      inputsize := rasterSize
      seeded := false
      iRastersReady := 0
      myplane := .color
      m_iWidth := m_iWidth
      m_iLastRaster := iLastRaster
      m_iOrgHeight := iLastRaster
      m_pszCurPtr := 0
      m_pszInputRasterData := memset heap 0 (m_iWidth * iLastRaster * iPlanes * iBPP)
      m_iPlanes := iPlanes
      m_iBPP := iBPP
      m_ezj_platform := platform
      m_iP := if iPlanes = 4 then planeOrder platform else fun _ => 0
      m_iCurRasterPerPlane := fun _ => 0
      m_iPlaneNumber := 0
      m_iCurrentPlane := 0
      encoded := [] }

section Encoder

variable (jbig : Jbig)

def compress (plane : Nat) (m : ModeJbig) : ModeJbig :=
  let p := m.m_iWidth * m.m_iBPP * m.m_iLastRaster * plane
  let size := m.m_iWidth * m.m_iLastRaster * m.m_iBPP
  let bytes := slice m.m_pszInputRasterData p size
  let out := jbig (m.m_iWidth * 8 * m.m_iBPP) m.m_iLastRaster bytes
  { m with
    compressBuf := out.1 ++ out.2
    compressedsize := out.1.length
    iRastersReady := 1
    m_iCurRasterPerPlane := Function.update m.m_iCurRasterPerPlane plane 0
    m_pszCurPtr := 0
    m_pszInputRasterData := blit m.m_pszInputRasterData p (fun _ => 0) size
    encoded := m.encoded ++
      [⟨plane, m.m_iWidth * 8 * m.m_iBPP, m.m_iLastRaster, bytes⟩] }

/-- `ModeJbig::Flush`. -/
def flush (m : ModeJbig) : ModeJbig :=
  let rows := m.m_iCurRasterPerPlane m.m_iPlaneNumber
  if rows > 0 then
    let height := m.m_iLastRaster
    let m := { m with m_iLastRaster := rows }
    let m := if m.m_iPlanes = 1 then { compress jbig 0 m with m_iLastRaster := height } else m
    { m with iRastersReady := 1 }
  else m

def expandByte (bpp p : Nat) (data : Mem) (m : Mem) (i : Nat) : Mem :=
  let m := Function.update m (p + i * bpp) (szByte1 (data i))
  let m := Function.update m (p + i * bpp + 1) (szByte2 (data i))
  let m := Function.update m (p + i * bpp) (double (m (p + i * bpp)))
  Function.update m (p + i * bpp + 1) (double (m (p + i * bpp + 1)))

def expand (bpp p : Nat) (input : RasterData) (m : Mem) : Mem :=
  match input.rasterdata .color with
  | none => m
  | some data => (List.range (input.rastersize .color)).foldl (expandByte bpp p data) m

def processZJStream (m : ModeJbig) (input : RasterData) : ModeJbig × Bool :=
  let m := { m with
    m_pszInputRasterData := match input.rasterdata .color with
      | none => m.m_pszInputRasterData
      | some data => blit m.m_pszInputRasterData m.m_pszCurPtr data (input.rastersize .color)
    m_iCurRasterPerPlane := Function.update m.m_iCurRasterPerPlane 0 (m.m_iCurRasterPerPlane 0 + 1)
    m_pszCurPtr := m.m_pszCurPtr + m.m_iWidth }
  if m.m_iCurRasterPerPlane 0 = m.m_iLastRaster then
    ({ compress jbig 0 m with iRastersReady := 1 }, true)
  else (m, false)

def processZXStream (m : ModeJbig) (input : RasterData) : ModeJbig × Bool :=
  let m := { m with
    m_pszInputRasterData := expand m.m_iBPP m.m_pszCurPtr input m.m_pszInputRasterData
    m_iCurRasterPerPlane := Function.update m.m_iCurRasterPerPlane 0 (m.m_iCurRasterPerPlane 0 + 1)
    m_pszCurPtr := m.m_pszCurPtr + m.m_iWidth * m.m_iBPP }
  if m.m_iCurRasterPerPlane 0 = m.m_iLastRaster then
    ({ compress jbig 0 m with iRastersReady := 1 }, true)
  else (m, false)

def store (m : ModeJbig) (input : RasterData) : ModeJbig :=
  let p := m.m_pszCurPtr + m.m_iP m.m_iPlaneNumber * m.m_iWidth * m.m_iBPP * m.m_iLastRaster
  { m with
    m_pszInputRasterData := expand m.m_iBPP p input m.m_pszInputRasterData
    m_iCurRasterPerPlane := Function.update m.m_iCurRasterPerPlane m.m_iPlaneNumber
      (m.m_iCurRasterPerPlane m.m_iPlaneNumber + 1) }

def processZJColor (m : ModeJbig) (input : RasterData) : ModeJbig × Bool :=
  let m := store m input
  if m.m_iCurRasterPerPlane m.m_iPlaneNumber = m.m_iLastRaster ∧ m.m_iPlaneNumber = 3 then
    ({ m with iRastersReady := 1, m_pszCurPtr := 0, m_iPlaneNumber := 0 }, true)
  else
    let m := { m with m_iPlaneNumber := m.m_iPlaneNumber + 1 }
    if m.m_iPlaneNumber = 4 then
      ({ m with
        m_pszCurPtr := m.m_pszCurPtr + m.m_iBPP * m.m_iWidth
        m_iPlaneNumber := 0 }, false)
    else (m, false)

/-- `ModeJbig::Process`. -/
def process (m : ModeJbig) (input : Option RasterData) : ModeJbig × Bool :=
  match input with
  | none => ({ m with compressedsize := 0, iRastersReady := 0 }, false)
  | some raster =>
    let r := match m.m_ezj_platform with
      | .zjStream => processZJStream jbig m raster
      | .zxStream => processZXStream jbig m raster
      | .zjColor | .zjColor2 =>
        if m.m_iPlanes = 1 then processZXStream jbig m raster else processZJColor m raster
    if r.1.iRastersReady ≠ 0 then
      ({ r.1 with
        m_iCurRasterPerPlane := Function.update r.1.m_iCurRasterPerPlane r.1.m_iPlaneNumber 0
        m_pszCurPtr := 0 }, r.2)
    else r

/-- `next_raster`: what the encoder wrote. -/
def output (m : ModeJbig) : RasterData where
  rastersize
    | .color => m.compressedsize
    | .black => 0
  rasterdata
    | .color => some (ofList m.compressBuf 0)
    | .black => none

/-- `ModeJbig::NextOutputRaster`. -/
def nextOutputRaster (m : ModeJbig) : ModeJbig × Option RasterData :=
  if m.iRastersReady = 0 then (m, none)
  else
    let m := if m.m_iPlanes = 4 then
        { compress jbig m.m_iCurrentPlane m with m_iCurrentPlane := m.m_iCurrentPlane + 1 }
      else m
    if m.m_iPlanes = 1 ∨ m.m_iCurrentPlane = 4 then
      ({ m with iRastersReady := 0, m_iCurrentPlane := 0, m_iLastRaster := m.m_iOrgHeight },
        some (output m))
    else (m, some (output m))

/-! ## The pipeline -/

/-- `while (NextOutputRaster (..)) next->Execute (..)`; four planes are five rounds. -/
def drain : Nat → ModeJbig → Option ModeJbig
  | 0, _ => none
  | fuel + 1, m =>
    match nextOutputRaster jbig m with
    | (m, none) => some m
    | (m, some _) => drain fuel m

inductive Call
  | execute (input : Option RasterData)
  | flush

/-- `Pipeline::Execute` and `Pipeline::Flush` of this phase. -/
def exec (m : ModeJbig) : Call → Option ModeJbig
  | .execute input =>
    let r := process jbig m input
    if r.2 then drain jbig 5 r.1 else some r.1
  | .flush => drain jbig 5 (flush jbig m)

def run (m : ModeJbig) (calls : List Call) : Option ModeJbig := calls.foldlM (exec jbig) m

end Encoder

/-! ## Bands -/

/-- The rasters of a row in the order in which they come: black, cyan, magenta, yellow. -/
abbrev Row := Fin 4 → RasterData

structure Band where
  rows : List Row
  pageEnd : Bool

/-- The calls that make a band: a page that ends is flushed, a band that is not full is
the last of its page. -/
def Band.calls (height : Nat) (band : Band) : List Call :=
  (band.rows.flatMap fun row => (List.finRange 4).map fun j => .execute (some (row j))) ++
    if band.pageEnd ∨ band.rows.length < height then [.flush] else []

/-- The bytes of a raster, each as two, and zeros to the end of the line. -/
def received (width : Nat) (raster : RasterData) : List UInt8 :=
  match raster.rasterdata .color with
  | none => List.replicate (width * 2) 0
  | some data =>
    ((slice data 0 (raster.rastersize .color)).flatMap fun b =>
      [double (szByte1 b), double (szByte2 b)]) ++
    List.replicate (width * 2 - raster.rastersize .color * 2) 0

/-- The raster that the printer takes as plane `k`. -/
def ink (platform : ZjPlatform) (k : Fin 4) : Fin 4 :=
  if platform = .zjColor2 then 3 - k else k + 1

/-- What the encoder is to be given of a band: as many lines of each plane as there are
rows. -/
def expected (platform : ZjPlatform) (width : Nat) (band : Band) : List Encoded :=
  (List.finRange 4).map fun k : Fin 4 =>
    ⟨k.val, width * 8 * 2, band.rows.length,
      band.rows.flatMap fun row => received width (row (ink platform k))⟩

/-! ## Lines of a raster -/

def expanded (data : Mem) : Mem := fun j =>
  if j % 2 = 0 then double (szByte1 (data (j / 2))) else double (szByte2 (data (j / 2)))

theorem expandByte_eq (p : Nat) (data m : Mem) (i : Nat) :
    expandByte 2 p data m i = blit m (p + i * 2) (fun j => expanded data (i * 2 + j)) 2 := by
  funext x
  unfold expandByte
  by_cases h0 : x = p + i * 2
  · subst h0
    rw [Function.update_of_ne (by lia), Function.update_self, Function.update_of_ne (by lia),
      Function.update_self, blit, if_pos (by lia), Nat.sub_self, expanded, if_pos (by lia),
      Nat.add_zero, Nat.mul_div_cancel _ Nat.zero_lt_two]
  by_cases h1 : x = p + i * 2 + 1
  · subst h1
    rw [Function.update_self, Function.update_of_ne (by lia), Function.update_self, blit,
      if_pos (by lia), Nat.add_sub_cancel_left, expanded, if_neg (by lia),
      show (i * 2 + 1) / 2 = i by lia]
  · rw [Function.update_of_ne h1, Function.update_of_ne h0, Function.update_of_ne h1,
      Function.update_of_ne h0, blit_of_not_mem (by lia)]

theorem foldl_expandByte (p : Nat) (data m : Mem) (n : Nat) :
    (List.range n).foldl (expandByte 2 p data) m = blit m p (expanded data) (n * 2) := by
  induction n with
  | zero =>
    funext x
    exact (blit_of_not_mem (by lia)).symm
  | succ n ih =>
    rw [List.range_succ, List.foldl_append, ih, List.foldl_cons, List.foldl_nil, expandByte_eq]
    funext x
    unfold blit
    by_cases hlast : p + n * 2 ≤ x ∧ x < p + n * 2 + 2
    · rw [if_pos hlast, if_pos (by lia)]
      exact congrArg (expanded data) (by lia)
    · rw [if_neg hlast]
      by_cases hold : p ≤ x ∧ x < p + n * 2
      · rw [if_pos hold, if_pos (by lia)]
      · rw [if_neg hold, if_neg (by lia)]

theorem slice_expanded (data : Mem) (n : Nat) :
    slice (expanded data) 0 (n * 2)
      = (slice data 0 n).flatMap fun b => [double (szByte1 b), double (szByte2 b)] := by
  induction n with
  | zero => rfl
  | succ n ih =>
    have hrow : slice data 0 (n + 1) = slice data 0 n ++ [data n] := by
      rw [slice_concat, Nat.zero_add]
    have htwo : slice (expanded data) (0 + n * 2) 2
        = [double (szByte1 (data n)), double (szByte2 (data n))] := by
      rw [Nat.zero_add, slice_succ, slice_one, expanded, expanded, if_pos (by lia),
        if_neg (by lia), Nat.mul_div_cancel _ Nat.zero_lt_two,
        show (n * 2 + 1) / 2 = n by lia]
    rw [Nat.succ_mul, slice_add, ih, htwo, hrow, List.flatMap_append, List.flatMap_singleton]

def blank (width : Nat) : List UInt8 := List.replicate (width * 2) 0

section Lines

variable {width g : Nat} {input : RasterData} (hfit : input.rastersize .color ≤ width) (m : Mem)

include hfit

theorem expand_line (hblank : line m (width * 2) g = blank width) :
    line (expand 2 (g * (width * 2)) input m) (width * 2) g = received width input := by
  unfold expand received
  cases input.rasterdata .color with
  | none => exact hblank
  | some data =>
    have htail := congrArg (List.drop (input.rastersize .color * 2)) hblank
    rw [line, drop_slice m (by omega), blank, List.drop_replicate] at htail
    dsimp only
    rw [foldl_expandByte, line_blit_self _ _ _ (by omega), slice_expanded, htail]

theorem expand_line_of_ne {g' : Nat} (hne : g ≠ g') :
    line (expand 2 (g * (width * 2)) input m) (width * 2) g' = line m (width * 2) g' := by
  unfold expand
  cases input.rasterdata .color with
  | none => rfl
  | some data =>
    dsimp only
    rw [foldl_expandByte, line_blit_of_ne (by omega) hne]

end Lines

/-! ## A band comes in -/

section Bands

variable {platform : ZjPlatform} {width height : Nat}

theorem planeOrder_eq_iff (platform : ZjPlatform) :
    ∀ j k : Fin 4, planeOrder platform j = k.val ↔ ink platform k = j := by
  cases platform <;> decide

/-- Line `r` of the plane in slot `k`, when `rows` are in the band. -/
def content (platform : ZjPlatform) (width : Nat) (rows : List Row) (k : Fin 4) (r : Nat) :
    List UInt8 :=
  match rows[r]? with
  | some row => received width (row (ink platform k))
  | none => blank width

/-- What stays as it is on a page of four planes. -/
structure Page (platform : ZjPlatform) (width height : Nat) (m : ModeJbig) : Prop where
  width_eq : m.m_iWidth = width
  height_eq : m.m_iOrgHeight = height
  planes : m.m_iPlanes = 4
  bpp : m.m_iBPP = 2
  platform_eq : m.m_ezj_platform = platform
  order : m.m_iP = planeOrder platform

/-- The band holds `rows`, and of the next row the first `j` rasters. -/
structure At (platform : ZjPlatform) (width height : Nat) (log : List Encoded)
    (rows : List Row) (row : Row) (j : Nat) (m : ModeJbig) : Prop
    extends Page platform width height m where
  lastRaster : m.m_iLastRaster = height
  ready : m.iRastersReady = 0
  current : m.m_iCurrentPlane = 0
  plane : m.m_iPlaneNumber = j
  ptr : m.m_pszCurPtr = rows.length * (width * 2)
  counts : ∀ i < 4, m.m_iCurRasterPerPlane i = if i < j then rows.length + 1 else rows.length
  lines : ∀ k : Fin 4, ∀ r < height, line m.m_pszInputRasterData (width * 2) (k * height + r)
    = if r = rows.length ∧ (ink platform k).val < j then received width (row (ink platform k))
      else content platform width rows k r
  encoded : m.encoded = log

theorem At.any {log : List Encoded} {rows : List Row} {row : Row} {m : ModeJbig}
    (h : At platform width height log rows row 0 m) (row' : Row) :
    At platform width height log rows row' 0 m :=
  { h with
    lines := fun k r hr => by
      rw [h.lines k r hr, if_neg (fun hlt => Nat.not_lt_zero _ hlt.2),
        if_neg (fun hlt => Nat.not_lt_zero _ hlt.2)] }

theorem line_index_inj {k k' r r' : Nat} (hr : r < height) (hr' : r' < height)
    (h : k * height + r = k' * height + r') : k = k' ∧ r = r' := by
  have hk : k = k' := by
    have hdiv := congrArg (· / height) h
    simpa [Nat.mul_comm _ height, Nat.mul_add_div (Nat.zero_lt_of_lt hr), Nat.div_eq_of_lt hr,
      Nat.div_eq_of_lt hr'] using hdiv
  subst hk
  exact ⟨rfl, Nat.add_left_cancel h⟩

theorem line_index_lt {r : Nat} (k : Fin 4) (hr : r < height) : k.val * height + r < 4 * height := by
  calc k.val * height + r < k.val * height + height := Nat.add_lt_add_left hr _
    _ = (k.val + 1) * height := (Nat.succ_mul _ _).symm
    _ ≤ 4 * height := Nat.mul_le_mul_right height k.isLt

theorem store_lines {log : List Encoded} {rows : List Row} {row : Row} {m : ModeJbig}
    {j : Fin 4} (h : At platform width height log rows row j m) (hrows : rows.length < height)
    (hfit : (row j).rastersize .color ≤ width) (k : Fin 4) {r : Nat} (hr : r < height) :
    line (store m (row j)).m_pszInputRasterData (width * 2) (k * height + r)
      = if r = rows.length ∧ (ink platform k).val < j + 1 then received width (row (ink platform k))
        else content platform width rows k r := by
  have hplace : m.m_pszCurPtr + m.m_iP m.m_iPlaneNumber * m.m_iWidth * m.m_iBPP * m.m_iLastRaster
      = (planeOrder platform j * height + rows.length) * (width * 2) := by
    rw [h.ptr, h.order, h.plane, h.width_eq, h.bpp, h.lastRaster]
    ring
  show line (expand m.m_iBPP _ (row j) m.m_pszInputRasterData) _ _ = _
  rw [hplace, h.bpp]
  have hslot := planeOrder_eq_iff platform j k
  by_cases hhere : ink platform k = j ∧ r = rows.length
  · obtain ⟨hk, rfl⟩ := hhere
    have hold := h.lines k _ hrows
    rw [if_neg (by rw [hk]; exact fun hlt => Nat.lt_irrefl _ hlt.2), content,
      List.getElem?_eq_none (Nat.le_refl _)] at hold
    rw [hslot.mpr hk, expand_line hfit _ hold, if_pos ⟨rfl, by rw [hk]; exact Nat.lt_succ_self _⟩,
      hk]
  · have hne : planeOrder platform j * height + rows.length ≠ k * height + r := fun heq =>
      have hsame := line_index_inj hrows hr heq
      hhere ⟨hslot.mp hsame.1, hsame.2.symm⟩
    rw [expand_line_of_ne hfit _ hne, h.lines k r hr]
    have hiff : (r = rows.length ∧ (ink platform k).val < j)
        ↔ (r = rows.length ∧ (ink platform k).val < j + 1) := by
      constructor
      · exact fun hlt => ⟨hlt.1, Nat.lt_succ_of_lt hlt.2⟩
      · refine fun hlt => ⟨hlt.1, Nat.lt_of_le_of_ne (Nat.le_of_lt_succ hlt.2) fun heq => ?_⟩
        exact hhere ⟨Fin.ext heq, hlt.1⟩
    simp only [hiff]

theorem content_snoc (rows : List Row) (row : Row) (k : Fin 4) (r : Nat) :
    content platform width (rows ++ [row]) k r
      = if r = rows.length ∧ (ink platform k).val < 3 + 1 then
          received width (row (ink platform k))
        else content platform width rows k r := by
  unfold content
  by_cases hr : r = rows.length
  · rw [if_pos ⟨hr, (ink platform k).isLt⟩, hr, List.getElem?_concat_length]
  · rw [if_neg fun h => hr h.1]
    rcases Nat.lt_or_gt_of_ne hr with hlt | hgt
    · rw [List.getElem?_append_left hlt]
    · rw [List.getElem?_eq_none (by simp; omega), List.getElem?_eq_none (Nat.le_of_lt hgt)]

variable (jbig : Jbig)

theorem process_color {m : ModeJbig} (hcolor : platform = .zjColor ∨ platform = .zjColor2)
    (h : Page platform width height m) {raster : RasterData} {r : ModeJbig × Bool}
    (hr : processZJColor m raster = r) :
    process jbig m (some raster) =
      if r.1.iRastersReady ≠ 0 then
        ({ r.1 with
          m_iCurRasterPerPlane := Function.update r.1.m_iCurRasterPerPlane r.1.m_iPlaneNumber 0
          m_pszCurPtr := 0 }, r.2)
      else r := by
  have hplanes : ¬ m.m_iPlanes = 1 := by
    rw [h.planes]
    decide
  subst hr
  unfold process
  dsimp only
  rw [h.platform_eq]
  rcases hcolor with rfl | rfl
  · dsimp only
    rw [if_neg hplanes]
  · dsimp only
    rw [if_neg hplanes]

section Row

variable {log : List Encoded} {rows : List Row} {row : Row} {m : ModeJbig}
  (hcolor : platform = .zjColor ∨ platform = .zjColor2) (hrows : rows.length < height)

theorem store_counts {j : Fin 4} (h : At platform width height log rows row j m) {i : Nat}
    (hi : i < 4) : (store m (row j)).m_iCurRasterPerPlane i
      = if i < j + 1 then rows.length + 1 else rows.length := by
  show Function.update m.m_iCurRasterPerPlane m.m_iPlaneNumber
    (m.m_iCurRasterPerPlane m.m_iPlaneNumber + 1) i = _
  rw [h.plane]
  by_cases heq : i = j.val
  · subst heq
    rw [Function.update_self, h.counts _ hi, if_neg (Nat.lt_irrefl _), if_pos (Nat.lt_succ_self _)]
  · rw [Function.update_of_ne heq, h.counts _ hi]
    have hiff : i < j.val ↔ i < j.val + 1 := by lia
    simp only [hiff]

include hcolor hrows

theorem process_plane {j : Fin 4} (h : At platform width height log rows row j m) (hj : j.val < 3)
    (hfit : (row j).rastersize .color ≤ width) :
    ∃ m', process jbig m (some (row j)) = (m', false) ∧
      At platform width height log rows row (j + 1) m' := by
  have hthird : ¬ ((store m (row j)).m_iCurRasterPerPlane (store m (row j)).m_iPlaneNumber
      = (store m (row j)).m_iLastRaster ∧ (store m (row j)).m_iPlaneNumber = 3) := by
    rintro ⟨-, hplane⟩
    rw [show (store m (row j)).m_iPlaneNumber = j.val from h.plane] at hplane
    omega
  have hfour : ¬ (store m (row j)).m_iPlaneNumber + 1 = 4 := by
    rw [show (store m (row j)).m_iPlaneNumber = j.val from h.plane]
    omega
  have hresult : processZJColor m (row j) =
      ({ store m (row j) with m_iPlaneNumber := (store m (row j)).m_iPlaneNumber + 1 }, false) := by
    rw [processZJColor]
    dsimp only
    rw [if_neg hthird, if_neg hfour]
  refine ⟨_, (process_color jbig hcolor h.toPage hresult).trans (if_neg (not_not_intro h.ready)), ?_⟩
  exact {
      width_eq := h.width_eq
      height_eq := h.height_eq
      planes := h.planes
      bpp := h.bpp
      platform_eq := h.platform_eq
      order := h.order
      lastRaster := h.lastRaster
      ready := h.ready
      current := h.current
      plane := congrArg (· + 1) h.plane
      ptr := h.ptr
      counts := fun i hi => store_counts h hi
      lines := fun k r hr => store_lines h hrows hfit k hr
      encoded := h.encoded }

theorem process_row (h : At platform width height log rows row 3 m)
    (hmore : rows.length + 1 < height) (hfit : (row 3).rastersize .color ≤ width) (row' : Row) :
    ∃ m', process jbig m (some (row 3)) = (m', false) ∧
      At platform width height log (rows ++ [row]) row' 0 m' := by
  have hplane : (store m (row 3)).m_iPlaneNumber = 3 := h.plane
  have hcount : (store m (row 3)).m_iCurRasterPerPlane 3 = rows.length + 1 :=
    store_counts (j := 3) h (by decide)
  have hthird : ¬ ((store m (row 3)).m_iCurRasterPerPlane (store m (row 3)).m_iPlaneNumber
      = (store m (row 3)).m_iLastRaster ∧ (store m (row 3)).m_iPlaneNumber = 3) := by
    rintro ⟨hfull, -⟩
    rw [hplane, hcount, show (store m (row 3)).m_iLastRaster = height from h.lastRaster] at hfull
    omega
  have hresult : processZJColor m (row 3) =
      ({ store m (row 3) with
        m_pszCurPtr := (store m (row 3)).m_pszCurPtr
          + (store m (row 3)).m_iBPP * (store m (row 3)).m_iWidth
        m_iPlaneNumber := 0 }, false) := by
    rw [processZJColor]
    dsimp only
    rw [if_neg hthird, if_pos (by rw [hplane])]
  refine ⟨_, (process_color jbig hcolor h.toPage hresult).trans (if_neg (not_not_intro h.ready)), ?_⟩
  exact {
      width_eq := h.width_eq
      height_eq := h.height_eq
      planes := h.planes
      bpp := h.bpp
      platform_eq := h.platform_eq
      order := h.order
      lastRaster := h.lastRaster
      ready := h.ready
      current := h.current
      plane := rfl
      ptr := by
        show m.m_pszCurPtr + m.m_iBPP * m.m_iWidth = _
        rw [h.ptr, h.bpp, h.width_eq, List.length_append, List.length_singleton]
        ring
      counts := fun i hi => by
        rw [if_neg (Nat.not_lt_zero _), List.length_append, List.length_singleton]
        exact (store_counts (j := 3) h hi).trans (if_pos hi)
      lines := fun k r hr => by
        rw [if_neg fun hlt => Nat.not_lt_zero _ hlt.2, content_snoc]
        exact store_lines (j := 3) h hrows hfit k hr
      encoded := h.encoded }

end Row

/-! ## A band goes out -/

/-- The four planes are on their way to the encoder, and `k` of them are there; `band` is
what the buffer held before. -/
structure Draining (platform : ZjPlatform) (width height : Nat) (log : List Encoded)
    (band : Mem) (rows k : Nat) (m : ModeJbig) : Prop
    extends Page platform width height m where
  lastRaster : m.m_iLastRaster = rows
  ready : m.iRastersReady ≠ 0
  current : m.m_iCurrentPlane = k
  plane : m.m_iPlaneNumber = 0
  counts : ∀ i < k, m.m_iCurRasterPerPlane i = 0
  lines : ∀ g, line m.m_pszInputRasterData (width * 2) g
    = if g < k * rows then blank width else line band (width * 2) g
  encoded : m.encoded = log ++ (List.range k).map fun i =>
    ⟨i, width * 8 * 2, rows, (List.range rows).flatMap fun r => line band (width * 2) (i * rows + r)⟩

structure Drained (platform : ZjPlatform) (width height : Nat) (log : List Encoded)
    (band : Mem) (rows : Nat) (m : ModeJbig) : Prop
    extends Page platform width height m where
  lastRaster : m.m_iLastRaster = height
  ready : m.iRastersReady = 0
  current : m.m_iCurrentPlane = 0
  plane : m.m_iPlaneNumber = 0
  ptr : m.m_pszCurPtr = 0
  counts : ∀ i < 4, m.m_iCurRasterPerPlane i = 0
  lines : ∀ g, line m.m_pszInputRasterData (width * 2) g
    = if g < 4 * rows then blank width else line band (width * 2) g
  encoded : m.encoded = log ++ (List.range 4).map fun i =>
    ⟨i, width * 8 * 2, rows, (List.range rows).flatMap fun r => line band (width * 2) (i * rows + r)⟩

section Drain

variable {log : List Encoded} {band : Mem} {rows k : Nat} {m : ModeJbig}

def handOn (jbig : Jbig) (m : ModeJbig) : ModeJbig :=
  { compress jbig m.m_iCurrentPlane m with m_iCurrentPlane := m.m_iCurrentPlane + 1 }

theorem nextOutputRaster_eq (hready : m.iRastersReady ≠ 0) (hplanes : m.m_iPlanes = 4) :
    nextOutputRaster jbig m =
      if m.m_iCurrentPlane + 1 = 4 then
        ({ handOn jbig m with
          iRastersReady := 0
          m_iCurrentPlane := 0
          m_iLastRaster := m.m_iOrgHeight }, some (output (handOn jbig m)))
      else (handOn jbig m, some (output (handOn jbig m))) := by
  have hone : ¬ (handOn jbig m).m_iPlanes = 1 := by
    rw [show (handOn jbig m).m_iPlanes = 4 from hplanes]
    decide
  rw [nextOutputRaster, if_neg hready, if_pos hplanes]
  by_cases hlast : m.m_iCurrentPlane + 1 = 4
  · rw [if_pos hlast]
    exact if_pos (.inr hlast)
  · rw [if_neg hlast]
    exact if_neg (not_or.mpr ⟨hone, hlast⟩)

theorem handOn_draining (h : Draining platform width height log band rows k m) :
    Draining platform width height log band rows (k + 1) (handOn jbig m) := by
  have hstart : m.m_iWidth * m.m_iBPP * m.m_iLastRaster * m.m_iCurrentPlane
      = k * rows * (width * 2) := by
    rw [h.width_eq, h.bpp, h.lastRaster, h.current]
    ring
  have hsize : m.m_iWidth * m.m_iLastRaster * m.m_iBPP = rows * (width * 2) := by
    rw [h.width_eq, h.bpp, h.lastRaster]
    ring
  have hbytes : slice m.m_pszInputRasterData (k * rows * (width * 2)) (rows * (width * 2))
      = (List.range rows).flatMap fun r => line band (width * 2) (k * rows + r) := by
    rw [slice_eq_lines]
    refine List.flatMap_congr fun r _ => ?_
    rw [h.lines, if_neg (Nat.not_lt_of_le (Nat.le_add_right _ _))]
  exact {
    width_eq := h.width_eq
    height_eq := h.height_eq
    planes := h.planes
    bpp := h.bpp
    platform_eq := h.platform_eq
    order := h.order
    lastRaster := h.lastRaster
    ready := Nat.one_ne_zero
    current := congrArg (· + 1) h.current
    plane := h.plane
    counts := fun i hi => by
      show Function.update m.m_iCurRasterPerPlane m.m_iCurrentPlane 0 i = 0
      rw [h.current]
      rcases Nat.lt_succ_iff_lt_or_eq.mp hi with hlt | rfl
      · rw [Function.update_of_ne (Nat.ne_of_lt hlt), h.counts i hlt]
      · exact Function.update_self ..
    lines := fun g => by
      show line (blit m.m_pszInputRasterData _ (fun _ => 0) _) _ _ = _
      rw [hstart, hsize, line_fill, h.lines, Nat.succ_mul]
      by_cases hnow : k * rows ≤ g ∧ g < k * rows + rows
      · rw [if_pos hnow, if_pos hnow.2, blank]
      · rw [if_neg hnow]
        by_cases hold : g < k * rows
        · rw [if_pos hold, if_pos (Nat.lt_add_right rows hold)]
        · rw [if_neg hold, if_neg (by lia)]
    encoded := by
      show m.encoded ++ [⟨m.m_iCurrentPlane, m.m_iWidth * 8 * m.m_iBPP, m.m_iLastRaster,
        slice m.m_pszInputRasterData _ _⟩] = _
      rw [hstart, hsize, hbytes, h.encoded, h.current, h.width_eq, h.bpp, h.lastRaster,
        List.range_succ, List.map_append, List.append_assoc]
      rfl }

theorem nextOutputRaster_draining (h : Draining platform width height log band rows k m)
    (hk : k < 3) : ∃ m' raster, nextOutputRaster jbig m = (m', some raster) ∧
      Draining platform width height log band rows (k + 1) m' := by
  have hraster := nextOutputRaster_eq jbig h.ready h.planes
  rw [h.current, if_neg (by omega)] at hraster
  exact ⟨_, _, hraster, handOn_draining jbig h⟩

theorem nextOutputRaster_last (h : Draining platform width height log band rows 3 m) :
    ∃ m' raster, nextOutputRaster jbig m = (m', some raster) ∧
      Drained platform width height log band rows m' := by
  have hraster := nextOutputRaster_eq jbig h.ready h.planes
  rw [h.current, if_pos rfl] at hraster
  have hdone := handOn_draining jbig h
  exact ⟨_, _, hraster,
    { width_eq := hdone.width_eq
      height_eq := hdone.height_eq
      planes := hdone.planes
      bpp := hdone.bpp
      platform_eq := hdone.platform_eq
      order := hdone.order
      lastRaster := h.height_eq
      ready := rfl
      current := rfl
      plane := hdone.plane
      ptr := rfl
      counts := hdone.counts
      lines := hdone.lines
      encoded := hdone.encoded }⟩

/-- **The loop over `NextOutputRaster`** hands on the four planes as blocks of `rows`
lines, one behind the other, and clears as many. -/
theorem drain_spec (h : Draining platform width height log band rows 0 m) :
    ∃ m', drain jbig 5 m = some m' ∧ Drained platform width height log band rows m' := by
  obtain ⟨m₁, r₁, hnext₁, h₁⟩ := nextOutputRaster_draining jbig h (by decide)
  obtain ⟨m₂, r₂, hnext₂, h₂⟩ := nextOutputRaster_draining jbig h₁ (by decide)
  obtain ⟨m₃, r₃, hnext₃, h₃⟩ := nextOutputRaster_draining jbig h₂ (by decide)
  obtain ⟨m₄, r₄, hnext₄, h₄⟩ := nextOutputRaster_last jbig h₃
  have hend : nextOutputRaster jbig m₄ = (m₄, none) := if_pos h₄.ready
  refine ⟨m₄, ?_, h₄⟩
  simp only [drain, hnext₁, hnext₂, hnext₃, hnext₄, hend]

end Drain

/-! ## Whole bands -/

section Whole

variable {log : List Encoded} {m : ModeJbig}

/-- The rasters of a row are no wider than a line. -/
def Fits (width : Nat) (row : Row) : Prop := ∀ j, (row j).rastersize .color ≤ width

def rowCalls (row : Row) : List Call := (List.finRange 4).map fun j => .execute (some (row j))

theorem run_append (m : ModeJbig) (as bs : List Call) :
    run jbig m (as ++ bs) = (run jbig m as).bind fun m => run jbig m bs :=
  List.foldlM_append

theorem run_singleton (m : ModeJbig) (c : Call) : run jbig m [c] = exec jbig m c := by
  rw [run, List.foldlM_cons]
  cases exec jbig m c <;> rfl

theorem exec_of_process {input : Option RasterData} {m' : ModeJbig}
    (h : process jbig m input = (m', false)) : exec jbig m (.execute input) = some m' := by
  rw [exec, h]
  rfl

theorem run_planes (hcolor : platform = .zjColor ∨ platform = .zjColor2) {rows : List Row}
    {row : Row} (h : At platform width height log rows row 0 m) (hrows : rows.length < height)
    (hfit : Fits width row) : ∃ m', run jbig m (((List.finRange 4).take 3).map fun j =>
        .execute (some (row j))) = some m' ∧ At platform width height log rows row 3 m' := by
  obtain ⟨m₁, hm₁, h₁⟩ := process_plane jbig (j := 0) hcolor hrows h (by decide) (hfit 0)
  obtain ⟨m₂, hm₂, h₂⟩ := process_plane jbig (j := 1) hcolor hrows h₁ (by decide) (hfit 1)
  obtain ⟨m₃, hm₃, h₃⟩ := process_plane jbig (j := 2) hcolor hrows h₂ (by decide) (hfit 2)
  refine ⟨m₃, ?_, h₃⟩
  show run jbig m ([.execute (some (row 0))] ++ [.execute (some (row 1))] ++
    [.execute (some (row 2))]) = some m₃
  rw [run_append, run_append, run_singleton, exec_of_process jbig hm₁, Option.bind_some,
    run_singleton, exec_of_process jbig hm₂, Option.bind_some, run_singleton,
    exec_of_process jbig hm₃]

theorem rowCalls_eq (row : Row) : rowCalls row
    = (((List.finRange 4).take 3).map fun j => .execute (some (row j)))
      ++ [.execute (some (row 3))] := rfl

theorem run_row (hcolor : platform = .zjColor ∨ platform = .zjColor2) {rows : List Row} {row : Row}
    (h : At platform width height log rows row 0 m) (hmore : rows.length + 1 < height)
    (hfit : Fits width row) (row' : Row) : ∃ m', run jbig m (rowCalls row) = some m' ∧
      At platform width height log (rows ++ [row]) row' 0 m' := by
  have hrows := Nat.lt_of_succ_lt hmore
  obtain ⟨m₃, hm₃, h₃⟩ := run_planes jbig hcolor h hrows hfit
  obtain ⟨m', hm', h'⟩ := process_row jbig hcolor hrows h₃ hmore (hfit 3) row'
  refine ⟨m', ?_, h'⟩
  rw [rowCalls_eq, run_append, hm₃, Option.bind_some, run_singleton, exec_of_process jbig hm']

theorem run_rows (hcolor : platform = .zjColor ∨ platform = .zjColor2) (more : List Row)
    {rows : List Row} {row : Row} (h : At platform width height log rows row 0 m)
    (hmore : rows.length + more.length < height) (hfit : ∀ r ∈ more, Fits width r) :
    ∃ m', run jbig m (more.flatMap rowCalls) = some m' ∧
      At platform width height log (rows ++ more) row 0 m' := by
  induction more generalizing rows m with
  | nil => exact ⟨m, rfl, by rwa [List.append_nil]⟩
  | cons next more ih =>
    rw [List.length_cons] at hmore
    obtain ⟨m₁, hm₁, h₁⟩ := run_row jbig hcolor (h.any next) (by omega)
      (hfit next List.mem_cons_self) row
    obtain ⟨m', hm', h'⟩ := ih h₁ (by rw [List.length_append, List.length_singleton]; omega)
      fun r hr => hfit r (List.mem_cons_of_mem next hr)
    refine ⟨m', ?_, by rwa [List.append_assoc] at h'⟩
    rw [List.flatMap_cons, run_append, hm₁, Option.bind_some, hm']

theorem process_last (hcolor : platform = .zjColor ∨ platform = .zjColor2) {rows : List Row}
    {row : Row} (h : At platform width height log rows row 3 m) (hfull : rows.length + 1 = height)
    (hfit : (row 3).rastersize .color ≤ width) :
    ∃ m', process jbig m (some (row 3)) = (m', true) ∧
      Draining platform width height log m'.m_pszInputRasterData height 0 m' ∧
      ∀ k : Fin 4, ∀ r < height, line m'.m_pszInputRasterData (width * 2) (k * height + r)
        = content platform width (rows ++ [row]) k r := by
  have hrows : rows.length < height := hfull ▸ Nat.lt_succ_self _
  have hplane : (store m (row 3)).m_iPlaneNumber = 3 := h.plane
  have hcount : (store m (row 3)).m_iCurRasterPerPlane 3 = rows.length + 1 :=
    store_counts (j := 3) h (by decide)
  have hlast : (store m (row 3)).m_iLastRaster = height := h.lastRaster
  have hresult : processZJColor m (row 3) =
      ({ store m (row 3) with iRastersReady := 1, m_pszCurPtr := 0, m_iPlaneNumber := 0 },
        true) := by
    rw [processZJColor]
    exact if_pos ⟨by rw [hplane, hcount, hlast, hfull], hplane⟩
  refine ⟨_, (process_color jbig hcolor h.toPage hresult).trans (if_pos Nat.one_ne_zero), ?_, ?_⟩
  · exact {
      width_eq := h.width_eq
      height_eq := h.height_eq
      planes := h.planes
      bpp := h.bpp
      platform_eq := h.platform_eq
      order := h.order
      lastRaster := h.lastRaster
      ready := Nat.one_ne_zero
      current := h.current
      plane := rfl
      counts := fun i hi => absurd hi (Nat.not_lt_zero i)
      lines := fun g => by rw [Nat.zero_mul, if_neg (Nat.not_lt_zero g)]
      encoded := h.encoded.trans (List.append_nil log).symm }
  · intro k r hr
    rw [content_snoc]
    exact store_lines (j := 3) h hrows hfit k hr

theorem flush_short {rows : List Row} {row : Row}
    (h : At platform width height log rows row 0 m) (hsome : 0 < rows.length) :
    Draining platform width height log m.m_pszInputRasterData rows.length 0 (flush jbig m) := by
  have hcount : m.m_iCurRasterPerPlane m.m_iPlaneNumber = rows.length := by
    rw [h.plane, h.counts 0 (by decide), if_neg (Nat.lt_irrefl 0)]
  have hone : ¬ m.m_iPlanes = 1 := by
    rw [h.planes]
    decide
  have hflush : flush jbig m = { m with m_iLastRaster := rows.length, iRastersReady := 1 } := by
    unfold flush
    dsimp only
    rw [hcount, if_pos hsome, if_neg hone]
  rw [hflush]
  exact {
    width_eq := h.width_eq
    height_eq := h.height_eq
    planes := h.planes
    bpp := h.bpp
    platform_eq := h.platform_eq
    order := h.order
    lastRaster := rfl
    ready := Nat.one_ne_zero
    current := h.current
    plane := h.plane
    counts := fun i hi => absurd hi (Nat.not_lt_zero i)
    lines := fun g => by rw [Nat.zero_mul, if_neg (Nat.not_lt_zero g)]
    encoded := h.encoded.trans (List.append_nil log).symm }

theorem flush_empty {row : Row} (h : At platform width height log [] row 0 m) :
    exec jbig m .flush = some m := by
  have hcount : m.m_iCurRasterPerPlane m.m_iPlaneNumber = 0 := by
    rw [h.plane, h.counts 0 (by decide)]
    rfl
  have hflush : flush jbig m = m := by
    unfold flush
    dsimp only
    rw [hcount, if_neg (Nat.lt_irrefl 0)]
  have hend : nextOutputRaster jbig m = (m, none) := if_pos h.ready
  rw [exec, hflush, drain, hend]

theorem content_rows (rows : List Row) (k : Fin 4) :
    (List.range rows.length).flatMap (content platform width rows k)
      = rows.flatMap fun row => received width (row (ink platform k)) := by
  induction rows using List.reverseRecOn with
  | nil => rfl
  | append_singleton rows row ih =>
    have hold : (List.range rows.length).flatMap (content platform width (rows ++ [row]) k)
        = (List.range rows.length).flatMap (content platform width rows k) := by
      refine List.flatMap_congr fun r hr => ?_
      rw [content_snoc, if_neg fun h => Nat.ne_of_lt (List.mem_range.mp hr) h.1]
    rw [List.length_append, List.length_singleton, List.range_succ, List.flatMap_append, hold, ih,
      List.flatMap_append, List.flatMap_singleton, List.flatMap_singleton, content_snoc,
      if_pos ⟨rfl, (ink platform k).isLt⟩]

theorem Drained.expected {band : Mem} {b : Band}
    (h : Drained platform width height log band height m) (hfull : b.rows.length = height)
    (hlines : ∀ k : Fin 4, ∀ r < height, line band (width * 2) (k * height + r)
      = content platform width b.rows k r) :
    m.encoded = log ++ expected platform width b := by
  have hplanes : List.range 4 = (List.finRange 4).map Fin.val := rfl
  rw [h.encoded, ModeJbig.expected, hplanes, List.map_map]
  refine congrArg (log ++ ·) (List.map_congr_left fun k _ => ?_)
  rw [Function.comp_apply, ← content_rows, hfull]
  exact congrArg (Encoded.mk _ _ _)
    (List.flatMap_congr fun r hr => hlines k r (List.mem_range.mp hr))

theorem Drained.at {band : Mem} (h : Drained platform width height log band height m)
    {log' : List Encoded} (hencoded : m.encoded = log') (row : Row) :
    At platform width height log' [] row 0 m where
  toPage := h.toPage
  lastRaster := h.lastRaster
  ready := h.ready
  current := h.current
  plane := h.plane
  ptr := by rw [h.ptr, List.length_nil, Nat.zero_mul]
  counts i hi := by
    rw [h.counts i hi]
    rfl
  lines k r hr := by
    rw [h.lines, if_pos (line_index_lt k hr), if_neg fun hlt => Nat.not_lt_zero _ hlt.2]
    rfl
  encoded := hencoded

/-- **A full band** is handed on as it came, and leaves nothing behind. -/
theorem run_full (hcolor : platform = .zjColor ∨ platform = .zjColor2) (hheight : 0 < height)
    {row : Row} (h : At platform width height log [] row 0 m) {b : Band}
    (hfull : b.rows.length = height) (hfit : ∀ r ∈ b.rows, Fits width r) :
    ∃ m', run jbig m (b.calls height) = some m' ∧
      At platform width height (log ++ expected platform width b) [] row 0 m' := by
  obtain ⟨rows, last, hrows⟩ : ∃ rows last, b.rows = rows ++ [last] := by
    rcases List.eq_nil_or_concat b.rows with hnil | ⟨rows, last, hlast⟩
    · rw [hnil] at hfull
      exact absurd hfull (Nat.ne_of_lt hheight)
    · exact ⟨rows, last, by rw [hlast, List.concat_eq_append]⟩
  have hlength : rows.length + 1 = height := by
    rw [← hfull, hrows, List.length_append, List.length_singleton]
  have hfits : ∀ r ∈ rows, Fits width r := fun r hr =>
    hfit r (by rw [hrows]; exact List.mem_append_left _ hr)
  have hfitLast : Fits width last := hfit last (by rw [hrows]; simp)
  obtain ⟨m₁, hm₁, h₁⟩ := run_rows jbig hcolor rows (h.any last)
    (by rw [List.length_nil, Nat.zero_add]; omega) hfits
  rw [List.nil_append] at h₁
  obtain ⟨m₂, hm₂, h₂⟩ := run_planes jbig hcolor h₁ (by omega) hfitLast
  obtain ⟨m₃, hm₃, hdrain, hlines⟩ := process_last jbig hcolor h₂ hlength (hfitLast 3)
  obtain ⟨m₄, hm₄, h₄⟩ := drain_spec jbig hdrain
  have hdone := h₄.at (h₄.expected hfull (by rwa [hrows])) row
  have hexec : exec jbig m₂ (.execute (some (last 3))) = some m₄ := by
    rw [exec, hm₃]
    exact hm₄
  have hband : run jbig m (b.rows.flatMap rowCalls) = some m₄ := by
    rw [hrows, List.flatMap_append, List.flatMap_singleton, run_append, hm₁, Option.bind_some,
      rowCalls_eq, run_append, hm₂, Option.bind_some, run_singleton, hexec]
  refine ⟨m₄, ?_, hdone⟩
  show run jbig m (b.rows.flatMap rowCalls ++ _) = _
  rw [run_append, hband, Option.bind_some]
  split
  · rw [run_singleton, flush_empty jbig hdone]
  · rfl

theorem run_bands (hcolor : platform = .zjColor ∨ platform = .zjColor2) (hheight : 0 < height)
    {row : Row} (bands : List Band) (h : At platform width height log [] row 0 m)
    (hfull : ∀ b ∈ bands, b.rows.length = height) (hfit : ∀ b ∈ bands, ∀ r ∈ b.rows, Fits width r) :
    ∃ m', run jbig m (bands.flatMap (Band.calls height)) = some m' ∧
      At platform width height (log ++ bands.flatMap (expected platform width)) [] row 0 m' := by
  induction bands generalizing m log with
  | nil => exact ⟨m, rfl, by rwa [List.flatMap_nil, List.append_nil]⟩
  | cons b bands ih =>
    obtain ⟨m₁, hm₁, h₁⟩ := run_full jbig hcolor hheight h (hfull b List.mem_cons_self)
      (hfit b List.mem_cons_self)
    obtain ⟨m', hm', h'⟩ := ih h₁ (fun c hc => hfull c (List.mem_cons_of_mem b hc))
      fun c hc => hfit c (List.mem_cons_of_mem b hc)
    refine ⟨m', ?_, by rwa [List.append_assoc] at h'⟩
    rw [List.flatMap_cons, run_append, hm₁, Option.bind_some, hm']

/-- **A band that is not full** is handed on in blocks of as many lines as came, but the
buffer has its planes a full band apart. -/
theorem run_short (hcolor : platform = .zjColor ∨ platform = .zjColor2)
    {row : Row} (h : At platform width height log [] row 0 m) {b : Band}
    (hsome : 0 < b.rows.length) (hshort : b.rows.length < height)
    (hfit : ∀ r ∈ b.rows, Fits width r) :
    ∃ m' band, run jbig m (b.calls height) = some m' ∧
      Drained platform width height log band b.rows.length m' ∧
      ∀ k : Fin 4, ∀ r < height, line band (width * 2) (k * height + r)
        = content platform width b.rows k r := by
  obtain ⟨m₁, hm₁, h₁⟩ := run_rows jbig hcolor b.rows h (by rwa [List.length_nil, Nat.zero_add])
    hfit
  rw [List.nil_append] at h₁
  obtain ⟨m₂, hm₂, h₂⟩ := drain_spec jbig (flush_short jbig h₁ hsome)
  refine ⟨m₂, _, ?_, h₂, fun k r hr => ?_⟩
  · show run jbig m (b.rows.flatMap rowCalls ++ _) = _
    rw [run_append, hm₁, Option.bind_some, if_pos (.inr hshort), run_singleton]
    exact hm₂
  · rw [h₁.lines k r hr, if_neg fun hlt => Nat.not_lt_zero _ hlt.2]

end Whole

theorem init_at (platform : ZjPlatform) (height : Nat) {rasterSize : Nat}
    (hwidth : width = (rasterSize + 31) / 32 * 4) (heap seedRow : Mem) (row : Row) :
    ∃ m, init true rasterSize height 4 2 platform heap seedRow = .ok m ∧
      At platform width height [] [] row 0 m := by
  refine ⟨_, if_neg (not_not_intro rfl), ?_⟩
  exact {
    width_eq := hwidth.symm
    height_eq := rfl
    planes := rfl
    bpp := rfl
    platform_eq := rfl
    order := by
      show (if 4 = 4 then planeOrder platform else fun _ => 0) = _
      rw [if_pos rfl]
    lastRaster := rfl
    ready := rfl
    current := rfl
    plane := rfl
    ptr := by rw [List.length_nil, Nat.zero_mul]
    counts := fun i _ => by
      rw [if_neg (Nat.not_lt_zero i)]
      rfl
    lines := fun k r hr => by
      have hfill := line_fill heap (0 : UInt8) (width * 2) 0 (4 * height) (k * height + r)
      have hlast := line_index_lt k hr
      rw [if_pos ⟨Nat.zero_le _, by rwa [Nat.zero_add]⟩, Nat.zero_mul] at hfill
      show line (blit heap 0 (fun _ => 0) ((rasterSize + 31) / 32 * 4 * height * 4 * 2)) _ _ = _
      rw [← hwidth, show width * height * 4 * 2 = 4 * height * (width * 2) by ring, hfill,
        if_neg fun hlt => Nat.not_lt_zero _ hlt.2]
      rfl
    encoded := rfl }

end Bands

/-! ## The log only grows -/

section Log

variable (jbig : Jbig) (m : ModeJbig)

theorem compress_encoded (k : Nat) : m.encoded <+: (compress jbig k m).encoded :=
  List.prefix_append ..

theorem ite_encoded {c : Prop} [Decidable c] {log : List Encoded} {r r' : ModeJbig × Bool}
    (h : log <+: r.1.encoded) (h' : log <+: r'.1.encoded) :
    log <+: (if c then r else r').1.encoded := by
  by_cases hc : c
  · rwa [if_pos hc]
  · rwa [if_neg hc]

theorem process_encoded (input : Option RasterData) :
    m.encoded <+: (process jbig m input).1.encoded := by
  cases input with
  | none => exact List.prefix_rfl
  | some raster =>
    -- each kind of raster is stored, and at most compressed
    have hzj : m.encoded <+: (processZJStream jbig m raster).1.encoded :=
      ite_encoded (List.prefix_append ..) List.prefix_rfl
    have hzx : m.encoded <+: (processZXStream jbig m raster).1.encoded :=
      ite_encoded (List.prefix_append ..) List.prefix_rfl
    have hcolor : m.encoded <+: (processZJColor m raster).1.encoded :=
      ite_encoded List.prefix_rfl (ite_encoded List.prefix_rfl List.prefix_rfl)
    have hafter : ∀ r : ModeJbig × Bool, m.encoded <+: r.1.encoded → m.encoded <+:
        (if r.1.iRastersReady ≠ 0 then
          (({ r.1 with
            m_iCurRasterPerPlane := Function.update r.1.m_iCurRasterPerPlane r.1.m_iPlaneNumber 0
            m_pszCurPtr := 0 } : ModeJbig), r.2)
        else r).1.encoded := fun r hr => ite_encoded hr hr
    unfold process
    dsimp only
    refine hafter _ ?_
    cases m.m_ezj_platform with
    | zjStream => exact hzj
    | zxStream => exact hzx
    | zjColor => exact ite_encoded hzx hcolor
    | zjColor2 => exact ite_encoded hzx hcolor

theorem nextOutputRaster_encoded : m.encoded <+: (nextOutputRaster jbig m).1.encoded := by
  unfold nextOutputRaster
  split
  · exact List.prefix_rfl
  dsimp only
  by_cases hplanes : m.m_iPlanes = 4
  · rw [if_pos hplanes]
    split
    · exact compress_encoded jbig m _
    · exact compress_encoded jbig m _
  · rw [if_neg hplanes]
    split
    · exact List.prefix_rfl
    · exact List.prefix_rfl

variable {m}

theorem drain_encoded (fuel : Nat) {m' : ModeJbig} (h : drain jbig fuel m = some m') :
    m.encoded <+: m'.encoded := by
  induction fuel generalizing m with
  | zero => cases h
  | succ fuel ih =>
    have hnext := nextOutputRaster_encoded jbig m
    rw [drain] at h
    cases hr : nextOutputRaster jbig m with
    | mk m₁ raster =>
      rw [hr] at h hnext
      cases raster with
      | none =>
        cases h
        exact hnext
      | some raster => exact hnext.trans (ih h)

theorem flush_encoded (m : ModeJbig) : m.encoded <+: (flush jbig m).encoded := by
  unfold flush
  dsimp only
  split
  · split
    · exact List.prefix_append ..
    · exact List.prefix_rfl
  · exact List.prefix_rfl

theorem exec_encoded {c : Call} {m' : ModeJbig} (h : exec jbig m c = some m') :
    m.encoded <+: m'.encoded := by
  cases c with
  | execute input =>
    have hprocess := process_encoded jbig m input
    rw [exec] at h
    split at h
    · exact hprocess.trans (drain_encoded jbig 5 h)
    · cases h
      exact hprocess
  | flush => exact (flush_encoded jbig m).trans (drain_encoded jbig 5 h)

theorem run_encoded (calls : List Call) {m' : ModeJbig} (h : run jbig m calls = some m') :
    m.encoded <+: m'.encoded := by
  induction calls generalizing m with
  | nil =>
    cases h
    exact List.prefix_rfl
  | cons c calls ih =>
    obtain ⟨m₁, hm₁, hrest⟩ := Option.bind_eq_some_iff.mp h
    exact (exec_encoded jbig hm₁).trans (ih hrest)

end Log

/-! ## The hand-off -/

/-- `m_iWidth`, of the constructor. -/
def lineWidth (rasterSize : Nat) : Nat := (rasterSize + 31) / 32 * 4

/-- The encoder is given, of one band after the other, what came in. -/
def Exact (jbig : Jbig) (platform : ZjPlatform) (rasterSize height : Nat) (heap seedRow : Mem)
    (bands : List Band) : Prop :=
  ∃ m m', init true rasterSize height 4 2 platform heap seedRow = .ok m ∧
    run jbig m (bands.flatMap (Band.calls height)) = some m' ∧
    m'.encoded = bands.flatMap (expected platform (lineWidth rasterSize))

def blankRow : Row := fun _ => ⟨fun _ => 0, fun _ => none⟩

def markedRow (platform : ZjPlatform) : Row := fun j =>
  if j = ink platform 1 then .only .color (fun _ => 255) 1 else ⟨fun _ => 0, fun _ => none⟩

def markedBand (platform : ZjPlatform) (rows : Nat) : Band :=
  ⟨markedRow platform :: List.replicate (rows - 1) blankRow, false⟩

theorem markedRow_fits (platform : ZjPlatform) {width : Nat} (hwidth : 0 < width) :
    Fits width (markedRow platform) := by
  intro j
  unfold markedRow
  split
  · exact hwidth
  · exact Nat.zero_le _

theorem received_markedRow (platform : ZjPlatform) (width : Nat) :
    ∃ l, received width (markedRow platform (ink platform 1)) = 255 :: l := by
  rw [markedRow, if_pos rfl]
  exact ⟨_, rfl⟩

theorem not_expected {platform : ZjPlatform} {width height : Nat} {log : List Encoded}
    {band : Mem} {rows : Nat} {m : ModeJbig} (hwidth : 0 < width) (hsome : 0 < rows)
    (hshort : rows < height)
    (hlines : ∀ k : Fin 4, ∀ r < height, line band (width * 2) (k * height + r)
      = content platform width (markedBand platform rows).rows k r)
    (h : Drained platform width height log band rows m) {rest : List Encoded} :
    ¬ m.encoded <+: log ++ (expected platform width (markedBand platform rows) ++ rest) := by
  obtain ⟨n, rfl⟩ := Nat.exists_eq_succ_of_ne_zero (Nat.ne_of_gt hsome)
  obtain ⟨w, rfl⟩ := Nat.exists_eq_succ_of_ne_zero (Nat.ne_of_gt hwidth)
  intro hprefix
  rw [h.encoded] at hprefix
  obtain ⟨tail, htail⟩ := (List.prefix_append_right_inj log).mp hprefix
  -- the second call, of the plane in slot 1
  have hbytes := congrArg Encoded.bytes (List.cons.inj (List.cons.inj htail).2).1
  have hblank : line band ((w + 1) * 2) (1 * (n + 1) + 0) = blank (w + 1) := by
    have hline := hlines 0 (n + 1) hshort
    rw [content, List.getElem?_eq_none (by simp [markedBand]), Fin.val_zero, Nat.zero_mul,
      Nat.zero_add] at hline
    rwa [Nat.one_mul, Nat.add_zero]
  have hstart : (List.range (n + 1)).flatMap
        (fun r => line band ((w + 1) * 2) (1 * (n + 1) + r))
      = blank (w + 1) ++ ((List.range n).map Nat.succ).flatMap
        fun r => line band ((w + 1) * 2) (1 * (n + 1) + r) := by
    rw [List.range_succ_eq_map, List.flatMap_cons, hblank]
  obtain ⟨l, hl⟩ := received_markedRow platform (w + 1)
  have hmark : ((markedBand platform (n + 1)).rows.flatMap fun row =>
        received (w + 1) (row (ink platform 1)))
      = (255 :: l) ++ (List.replicate n blankRow).flatMap fun row =>
        received (w + 1) (row (ink platform 1)) := by
    rw [markedBand, List.flatMap_cons, hl]
    rfl
  have hfirst : (0 : UInt8) = 255 :=
    (List.cons.inj (hstart.symm.trans (hbytes.trans hmark))).1
  exact absurd hfirst (by decide)

theorem exists_first {α : Type} {p : α → Prop} {l : List α} (h : ¬ ∀ x ∈ l, p x) :
    ∃ pre x post, l = pre ++ x :: post ∧ (∀ y ∈ pre, p y) ∧ ¬ p x := by
  induction l with
  | nil => exact absurd (fun x hx => absurd hx List.not_mem_nil) h
  | cons a l ih =>
    by_cases ha : p a
    · obtain ⟨pre, x, post, rfl, hpre, hx⟩ := ih fun hl => h (List.forall_mem_cons.mpr ⟨ha, hl⟩)
      exact ⟨a :: pre, x, post, rfl, List.forall_mem_cons.mpr ⟨ha, hpre⟩, hx⟩
    · exact ⟨[], a, l, rfl, fun y hy => absurd hy List.not_mem_nil, ha⟩

def blankBand (rows : Nat) : Band := ⟨List.replicate rows blankRow, false⟩

theorem blankRow_fits (width : Nat) : Fits width blankRow := fun _ => Nat.zero_le _

theorem blankBand_fits (width rows : Nat) : ∀ r ∈ (blankBand rows).rows, Fits width r := by
  intro r hr
  rw [List.eq_of_mem_replicate hr]
  exact blankRow_fits width

/-- **Bands arrive if and only if they are full**: of bands of these heights the encoder
is given what came in, whatever that is, exactly if no page ends within one. -/
theorem handed_iff (jbig : Jbig) {platform : ZjPlatform}
    (hcolor : platform = .zjColor ∨ platform = .zjColor2) {rasterSize height : Nat}
    (hsize : 0 < rasterSize) (heap seedRow : Mem) (heights : List Nat)
    (hheights : ∀ h ∈ heights, 1 ≤ h ∧ h ≤ height) :
    (∀ bands : List Band, bands.map (fun b => b.rows.length) = heights →
      (∀ b ∈ bands, ∀ r ∈ b.rows, Fits (lineWidth rasterSize) r) →
      Exact jbig platform rasterSize height heap seedRow bands) ↔
    ∀ h ∈ heights, h = height := by
  have hwidth : 0 < lineWidth rasterSize := by
    unfold lineWidth
    lia
  constructor
  · intro hexact
    by_contra hall
    obtain ⟨pre, h, post, rfl, hpre, hne⟩ := exists_first hall
    obtain ⟨hsome, hle⟩ := hheights h (by simp)
    have hshort : h < height := Nat.lt_of_le_of_ne hle hne
    have hlength : ∀ l : List Nat, (l.map blankBand).map (fun b => b.rows.length) = l := by
      intro l
      simp [blankBand, Function.comp_def]
    have hmarked : (markedBand platform h).rows.length = h := by
      simp [markedBand, Nat.sub_add_cancel hsome]
    have hmarkedFits : ∀ r ∈ (markedBand platform h).rows, Fits (lineWidth rasterSize) r := by
      intro r hr
      rcases List.mem_cons.mp hr with rfl | hr
      · exact markedRow_fits platform hwidth
      · exact blankBand_fits _ _ r hr
    have hpreFits : ∀ b ∈ pre.map blankBand, ∀ r ∈ b.rows, Fits (lineWidth rasterSize) r := by
      intro b hb
      obtain ⟨n, -, rfl⟩ := List.mem_map.mp hb
      exact blankBand_fits _ n
    obtain ⟨m, m', hinit, hrun, hencoded⟩ := hexact
      (pre.map blankBand ++ markedBand platform h :: post.map blankBand)
      (by rw [List.map_append, List.map_cons, hlength, hlength, hmarked])
      (by
        intro b hb
        rcases List.mem_append.mp hb with hb | hb
        · exact hpreFits b hb
        rcases List.mem_cons.mp hb with rfl | hb
        · exact hmarkedFits
        · obtain ⟨n, -, rfl⟩ := List.mem_map.mp hb
          exact blankBand_fits _ n)
    obtain ⟨m₀, hm₀, h₀⟩ := init_at platform height
      (show lineWidth rasterSize = _ from rfl) heap seedRow blankRow
    obtain rfl : m = m₀ := by
      rw [hm₀] at hinit
      exact (Except.ok.inj hinit).symm
    obtain ⟨m₁, hm₁, h₁⟩ := run_bands jbig hcolor (Nat.zero_lt_of_lt hshort) (pre.map blankBand) h₀
      (by
        intro b hb
        obtain ⟨n, hn, rfl⟩ := List.mem_map.mp hb
        rw [← hpre n hn]
        exact List.length_replicate)
      hpreFits
    obtain ⟨m₂, band, hm₂, h₂, hlines⟩ := run_short jbig hcolor h₁
      (by rwa [hmarked]) (by rwa [hmarked]) hmarkedFits
    rw [hmarked] at h₂
    rw [List.flatMap_append, List.flatMap_cons, run_append, hm₁, Option.bind_some, run_append,
      hm₂, Option.bind_some] at hrun
    have hgrown := run_encoded jbig _ hrun
    rw [hencoded, List.flatMap_append, List.flatMap_cons] at hgrown
    exact not_expected hwidth hsome hshort hlines h₂ hgrown
  · intro hall bands hbands hfits
    obtain ⟨m, hm, h⟩ := init_at platform height
      (show lineWidth rasterSize = _ from rfl) heap seedRow blankRow
    have hfull : ∀ b ∈ bands, b.rows.length = height := fun b hb =>
      hall _ (hbands ▸ List.mem_map_of_mem hb)
    rcases bands with _ | ⟨b, bands⟩
    · exact ⟨m, m, hm, rfl, h.encoded⟩
    have hheight : 0 < height := by
      have hb := hfull b List.mem_cons_self
      have := (hheights b.rows.length (hbands ▸ List.mem_map_of_mem List.mem_cons_self)).1
      lia
    obtain ⟨m', hm', h'⟩ := run_bands jbig hcolor hheight (b :: bands) h hfull hfits
    exact ⟨m, m', hm, hm', h'.encoded⟩

/-- Two bands that one row fills. -/
theorem handed_one_row_bands : Exact (fun _ _ bytes => (bytes, [])) .zjColor 32 1
    (fun _ => 7) (fun _ => 7) [markedBand .zjColor 1, markedBand .zjColor 1] := by
  refine (handed_iff (fun _ _ bytes => (bytes, [])) (.inl rfl) (by decide) _ _ [1, 1]
    (by decide)).mpr (by decide) [markedBand .zjColor 1, markedBand .zjColor 1] rfl ?_
  intro b hb r hr
  obtain rfl : b = markedBand .zjColor 1 := by simpa using hb
  obtain rfl : r = markedRow .zjColor := by simpa [markedBand] using hr
  exact markedRow_fits .zjColor (by decide)

/-- A page that ends with one row in a band of a hundred. -/
theorem not_exact_short : ¬ Exact (fun _ _ bytes => (bytes, [])) .zjColor 32 100
    (fun _ => 7) (fun _ => 7) [markedBand .zjColor 1] := by
  rintro ⟨m, m', hinit, hrun, hencoded⟩
  cases hinit
  have hmap := congrArg (Option.map encoded) hrun
  rw [Option.map_some, hencoded] at hmap
  exact absurd hmap (by decide +kernel)

end ModeJbig

end Hplip.Hpcups
