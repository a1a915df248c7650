import Hplip.Hpcups.ModeJbig

/-!
# Bands of a colour laser page (LJZjStream.cpp)

A page goes out in bands of `ZJC_BAND_HEIGHT` rows. Each plane of a band is compressed and sent
as a BITMAP chunk, and the chunk that reaches the height of the page says that its plane ends.
`FormFeed` is to fill up a page that has fewer rows with blank bands. The printers here are those
of the platform `ljzjscolor`, of a version other than 2; what is sent arrives.
-/

namespace Hplip.Hpcups.LJZjStream

open ModeJbig

def zjcBandHeight : Nat := 100

structure JobAttributes where
  color_mode : Int
  printable_height : Int

/-- `m_iPlanes`, and `num_planes`. -/
def JobAttributes.numPlanes (job : JobAttributes) : Nat := if job.color_mode = 0 then 4 else 1

def JobAttributes.planes (job : JobAttributes) : List Nat :=
  if job.color_mode = 0 then [1, 2, 3, 4] else [4]

/-! ## Chunks -/

def lowFirst (bytes : List UInt8) : Nat := bytes.foldr (fun b n => b.toNat + 256 * n) 0

structure HPLJZjsJbgEncSt where
  xd : Nat
  yd : Nat
  l0 : Nat
  mx : Nat
  my : Nat
  order : Nat
  planes : Nat
  dl : Nat
  d : Nat
  options : Nat

/-- The structure at an address; an `unsigned long` has eight bytes. -/
def HPLJZjsJbgEncSt.at (m : Mem) (p : Nat) : HPLJZjsJbgEncSt where
  xd := lowFirst (slice m p 8)
  yd := lowFirst (slice m (p + 8) 8)
  l0 := lowFirst (slice m (p + 16) 8)
  mx := lowFirst (slice m (p + 24) 4)
  my := lowFirst (slice m (p + 28) 4)
  order := lowFirst (slice m (p + 32) 4)
  planes := lowFirst (slice m (p + 36) 4)
  dl := lowFirst (slice m (p + 40) 4)
  d := lowFirst (slice m (p + 44) 4)
  options := lowFirst (slice m (p + 48) 4)

inductive Item
  | bitmapType
  | bitmapPixels
  | bitmapStride
  | bitmapLines
  | bitmapBpp
  | videoBpp
  | plane
  | encodingData
  | endPlane
  deriving DecidableEq

/-- A BITMAP chunk; `stripe` is the height of the band whose bytes it has. -/
structure Chunk where
  items : List (Item × Nat)
  data : List UInt8
  stripe : Option Nat

def highFirst (n : Nat) : List UInt8 :=
  [(n / 2 ^ 24).toUInt8, (n / 2 ^ 16).toUInt8, (n / 2 ^ 8).toUInt8, n.toUInt8]

/-- The chunk in front of the bands, for one plane; `m_iBpp` is 2. -/
def headerChunk (se : HPLJZjsJbgEncSt) (plane : Nat) : Chunk where
  items := [(.bitmapType, 1), (.bitmapPixels, se.xd), (.bitmapStride, se.xd), (.bitmapLines, se.yd),
    (.bitmapBpp, 1), (.videoBpp, 2), (.plane, plane), (.encodingData, 20)]
  data := [se.dl.toUInt8, se.d.toUInt8, se.planes.toUInt8, 0] ++ highFirst se.xd
    ++ highFirst se.yd ++ highFirst se.l0
    ++ [se.mx.toUInt8, se.my.toUInt8, se.order.toUInt8, se.options.toUInt8]
  stripe := none

def stripeChunk (se : HPLJZjsJbgEncSt) (plane : Nat) (bLastStride : Bool) (data : List UInt8) :
    Chunk where
  items := (.plane, plane) :: if bLastStride then [(.bitmapLines, se.yd), (.endPlane, 1)] else []
  data := data ++
    List.replicate (if data.length % 4 ≠ 0 then (data.length / 4 + 1) * 4 - data.length else 0) 0
  stripe := some se.yd

/-! ## The encapsulator -/

/-- The members, and the chunks sent since `StartPage`. -/
structure State where
  m_pModeJbig : ModeJbig
  m_bNotSent : Bool
  m_iCurRaster : Nat
  m_iPlaneNumber : Nat
  sent : List Chunk

section Encapsulate

variable (job : JobAttributes)

/-- `encapsulateColor`; `data` has the compressed bytes, and behind them the encoder's state. -/
def encapsulateColor (s : State) (data : Mem) (size : Nat) : State :=
  let se := HPLJZjsJbgEncSt.at data size
  -- the rows of a band are counted with its first plane
  let m_iCurRaster := if s.m_iPlaneNumber = 0 ∨ job.color_mode ≠ 0 then s.m_iCurRaster + se.yd
    else s.m_iCurRaster
  let bLastStride := decide (job.printable_height ≤ m_iCurRaster)
  let first := decide (s.m_iPlaneNumber = 0) && s.m_bNotSent
  { s with
    m_iCurRaster := m_iCurRaster
    m_bNotSent := bLastStride || (s.m_bNotSent && !first)
    m_iPlaneNumber :=
      if job.color_mode = 0 then if s.m_iPlaneNumber + 1 = 4 then 0 else s.m_iPlaneNumber + 1
      else s.m_iPlaneNumber
    sent := s.sent ++ (if first then job.planes.map (headerChunk se) else []) ++
      [stripeChunk se (if job.color_mode = 0 then s.m_iPlaneNumber + 1 else 4) bLastStride
        (slice data 20 (size - 20))] }

def encapsulate (s : State) (raster : RasterData) : State :=
  match raster.rasterdata .color with
  | none => s
  | some data =>
    if raster.rastersize .color = 0 then s
    else encapsulateColor job s data (raster.rastersize .color)

variable (jbig : Jbig)

def setBandHeight (m : ModeJbig) (height : Nat) : ModeJbig := { m with m_iLastRaster := height }

def noRaster : RasterData := ⟨fun _ => 0, fun _ => none⟩

/-- `NextOutputRaster (raster_data)`, which leaves the raster as it is when there is none. -/
def nextInto (s : State) (raster : RasterData) : State × RasterData :=
  match nextOutputRaster jbig s.m_pModeJbig with
  | (m, next) => ({ s with m_pModeJbig := m }, next.getD raster)

/-- One round of the loop over the planes of a band that is lower than the others. -/
def shortPlane (s : State × RasterData) : State × RasterData :=
  let s := nextInto jbig { s.1 with m_pModeJbig := flush jbig s.1.m_pModeJbig } s.2
  (encapsulate job s.1 s.2, s.2)

/-- `while (remaining_rasters > 0)`, of at most `rounds` rounds. -/
def fullBands (raster : RasterData) : Nat → Int → State → State × Int
  | 0, remaining_rasters, s => (s, remaining_rasters)
  | rounds + 1, remaining_rasters, s =>
    if 0 < remaining_rasters then
      fullBands raster rounds (remaining_rasters - zjcBandHeight)
        ((fun s => encapsulate job s raster)^[job.numPlanes] s)
    else (s, remaining_rasters)

/-- `Process`, `Flush` and `NextOutputRaster` of a raster that is all zero. -/
def blankBand (s : State) : State × RasterData :=
  nextInto jbig
    { s with m_pModeJbig := flush jbig (process jbig s.m_pModeJbig (some noRaster)).1 } noRaster

def sendBlankBands (s : State) : State :=
  let remaining_rasters := job.printable_height - s.m_iCurRaster
  if remaining_rasters ≤ 0 then s
  else if remaining_rasters < zjcBandHeight then
    let s := { s with m_pModeJbig := setBandHeight s.m_pModeJbig remaining_rasters.toNat }
    -- each plane is flushed and asked for by itself
    let s := ((shortPlane job jbig)^[job.numPlanes] (s, noRaster)).1
    { s with m_pModeJbig := setBandHeight s.m_pModeJbig zjcBandHeight }
  else
    -- one raster for all bands and planes
    let band := blankBand jbig s
    let filled := fullBands job band.2 remaining_rasters.toNat remaining_rasters band.1
    let s := filled.1
    if filled.2 ≤ 0 then s
    else
      -- for what the loop has left
      let band := blankBand jbig
        { s with m_pModeJbig := setBandHeight s.m_pModeJbig filled.2.toNat }
      let s := (fun s => encapsulate job s band.2)^[job.numPlanes] band.1
      { s with m_pModeJbig := setBandHeight s.m_pModeJbig zjcBandHeight }

/-- `while (NextOutputRaster (..)) next->Execute (..)`, which ends in `Encapsulate`; four planes
are five rounds. -/
def pump : Nat → State → Option State
  | 0, _ => none
  | fuel + 1, s =>
    match nextOutputRaster jbig s.m_pModeJbig with
    | (m, none) => some { s with m_pModeJbig := m }
    | (m, some raster) => pump fuel (encapsulate job { s with m_pModeJbig := m } raster)

def execute (s : State) (raster : RasterData) : Option State :=
  let r := process jbig s.m_pModeJbig (some raster)
  let s := { s with m_pModeJbig := r.1 }
  if r.2 then pump job jbig 5 s else some s

def startPage (s : State) : State := { s with m_iPlaneNumber := 0, m_iCurRaster := 0, sent := [] }

abbrev Row := Fin job.numPlanes → RasterData

/-- A page: its rows, the flush of the pipeline, and what `FormFeed` does first. -/
def page (s : State) (rows : List (Row job)) : Option State := do
  let s ← (rows.flatMap List.ofFn).foldlM (execute job jbig) (startPage s)
  let s ← pump job jbig 5 { s with m_pModeJbig := flush jbig s.m_pModeJbig }
  return sendBlankBands job jbig s

def configure (plugin : Bool) (width : Nat) (heap seedRow : Mem) : Except DriverError State := do
  let m ← ModeJbig.init plugin width zjcBandHeight job.numPlanes 2 .zjColor heap seedRow
  return ⟨m, true, 0, 0, []⟩

end Encapsulate

/-! ## What the chunks announce -/

/-- The plug-in says in `yd` the height that it was asked for, and its bytes start with a header. -/
structure Reports (jbig : Jbig) : Prop where
  header : ∀ w h bytes, 20 ≤ (jbig w h bytes).1.length
  state : ∀ w h bytes, (jbig w h bytes).2.length = 56
  yd : ∀ w h bytes, h ≤ zjcBandHeight → lowFirst (((jbig w h bytes).2.drop 8).take 8) = h

/-- A stripe of a plane: its height, and whether the chunk has the items of the last one. -/
structure Mark where
  height : Nat
  bitmapLines : Bool
  endPlane : Bool
  deriving DecidableEq

def Chunk.has (c : Chunk) (item : Item) : Bool := (c.items.lookup item).isSome

def Chunk.mark (plane : Nat) (c : Chunk) : Option Mark :=
  if c.items.lookup .plane = some plane then
    c.stripe.map fun height => ⟨height, c.has .bitmapLines, c.has .endPlane⟩
  else none

def marks (plane : Nat) (sent : List Chunk) : List Mark := sent.filterMap (Chunk.mark plane)

/-- The stripes of each plane add up to the page, and the last one, and no other, ends it. -/
def Ends (job : JobAttributes) (sent : List Chunk) : Prop :=
  ∀ plane ∈ job.planes,
    (((marks plane sent).map Mark.height).sum : Int) = job.printable_height ∧
    ∃ before height, marks plane sent = before ++ [⟨height, true, true⟩] ∧
      ∀ m ∈ before, m.bitmapLines = false ∧ m.endPlane = false

/-- The marks of bands of these heights, after `rows` rows. -/
def bandMarks (page : Int) : Nat → List Nat → List Mark
  | _, [] => []
  | rows, height :: heights =>
    ⟨height, decide (page ≤ (rows + height : Nat)), decide (page ≤ (rows + height : Nat))⟩
      :: bandMarks page (rows + height) heights

section Marks

variable {page : Int} {rows : Nat} {heights : List Nat}

theorem bandMarks_append (heights' : List Nat) :
    bandMarks page rows (heights ++ heights')
      = bandMarks page rows heights ++ bandMarks page (rows + heights.sum) heights' := by
  induction heights generalizing rows with
  | nil => rfl
  | cons height heights ih =>
    rw [List.cons_append, bandMarks, bandMarks, ih, List.sum_cons, Nat.add_assoc]
    rfl

theorem bandMarks_heights : (bandMarks page rows heights).map Mark.height = heights := by
  induction heights generalizing rows with
  | nil => rfl
  | cons height heights ih => rw [bandMarks, List.map_cons, ih]

theorem bandMarks_before (h : ((rows + heights.sum : Nat) : Int) < page) :
    ∀ m ∈ bandMarks page rows heights, m.bitmapLines = false ∧ m.endPlane = false := by
  induction heights generalizing rows with
  | nil => exact fun m hm => absurd hm List.not_mem_nil
  | cons height heights ih =>
    rw [List.sum_cons, ← Nat.add_assoc] at h
    intro m hm
    rcases List.mem_cons.mp hm with rfl | hm
    · have hlow : ¬ page ≤ (rows + height : Nat) := by omega
      exact ⟨decide_eq_false hlow, decide_eq_false hlow⟩
    · exact ih h m hm

end Marks

/-- The chunks of a page so far: each plane has the bands of these heights. -/
structure Announced (job : JobAttributes) (heights : List Nat) (s : State) : Prop where
  plane : s.m_iPlaneNumber = 0
  curRaster : s.m_iCurRaster = heights.sum
  marks_eq : ∀ p ∈ job.planes, marks p s.sent = bandMarks job.printable_height 0 heights

theorem Announced.ends_iff {job : JobAttributes} {heights : List Nat} {s : State}
    (h : Announced job heights s) (hpos : ∀ height ∈ heights, 0 < height) :
    Ends job s.sent ↔ 0 < heights.sum ∧ (heights.sum : Int) = job.printable_height := by
  have hfour : 4 ∈ job.planes := by
    unfold JobAttributes.planes
    split <;> decide
  constructor
  · intro hends
    obtain ⟨hsum, before, height, hlast, -⟩ := hends 4 hfour
    rw [h.marks_eq 4 hfour, bandMarks_heights] at hsum
    refine ⟨?_, hsum⟩
    rw [h.marks_eq 4 hfour] at hlast
    have hheights := congrArg (List.map Mark.height) hlast
    rw [bandMarks_heights, List.map_append, List.map_singleton] at hheights
    have hmem : height ∈ heights := by
      rw [hheights]
      exact List.mem_concat_self
    rw [hheights, List.sum_append, List.sum_singleton]
    exact Nat.lt_add_left _ (hpos height hmem)
  · rintro ⟨hsome, hsum⟩ p hp
    rw [h.marks_eq p hp, bandMarks_heights]
    refine ⟨hsum, ?_⟩
    obtain rfl | ⟨before, height, rfl⟩ := List.eq_nil_or_concat heights
    · exact absurd hsome (Nat.lt_irrefl 0)
    · have hlast : 0 < height := hpos height (by rw [List.concat_eq_append]; simp)
      rw [List.concat_eq_append] at hsum ⊢
      rw [List.sum_append, List.sum_singleton] at hsum
      rw [bandMarks_append]
      refine ⟨bandMarks job.printable_height 0 before, height, ?_, ?_⟩
      · have hreached : job.printable_height ≤ (0 + before.sum + height : Nat) := by omega
        rw [bandMarks, bandMarks, decide_eq_true hreached]
      · exact bandMarks_before (by omega)

/-! ## A raster from the encoder -/

def Carries (height : Nat) (raster : RasterData) : Prop :=
  ∃ data, raster.rasterdata .color = some data ∧ 20 ≤ raster.rastersize .color ∧
    (HPLJZjsJbgEncSt.at data (raster.rastersize .color)).yd = height

theorem slice_ofList_append (as bs : List UInt8) (k n : Nat) (h : k + n ≤ bs.length) :
    slice (ofList (as ++ bs) 0) (as.length + k) n = (bs.drop k).take n := by
  apply List.ext_getElem
  · rw [slice_length, List.length_take, List.length_drop]
    lia
  · intro i hi hi'
    have hin : i < n := by rwa [slice_length] at hi
    have hcell : (as ++ bs)[as.length + k + i]? = bs[k + i]? := by
      rw [Nat.add_assoc, List.getElem?_append_right (Nat.le_add_right _ _),
        Nat.add_sub_cancel_left]
    rw [slice_getElem, ofList, List.getElem_take, List.getElem_drop, List.getD_eq_getElem?_getD,
      hcell, List.getElem?_eq_getElem (by lia)]
    rfl

theorem carries_output {jbig : Jbig} (hjbig : Reports jbig) {m : ModeJbig} {width height : Nat}
    {bytes : List UInt8} (hheight : height ≤ zjcBandHeight)
    (hbuf : m.compressBuf = (jbig width height bytes).1 ++ (jbig width height bytes).2)
    (hsize : m.compressedsize = (jbig width height bytes).1.length) :
    Carries height (output m) := by
  refine ⟨_, rfl, ?_, ?_⟩
  · show 20 ≤ m.compressedsize
    rw [hsize]
    exact hjbig.header ..
  · show lowFirst (slice (ofList m.compressBuf 0) (m.compressedsize + 8) 8) = height
    rw [hbuf, hsize, slice_ofList_append _ _ _ _ (by rw [hjbig.state]; decide)]
    exact hjbig.yd _ _ _ hheight

/-! ## A plane of a band -/

theorem marks_append (plane : Nat) (sent sent' : List Chunk) :
    marks plane (sent ++ sent') = marks plane sent ++ marks plane sent' :=
  List.filterMap_append

theorem marks_header (plane : Nat) (se : HPLJZjsJbgEncSt) (first : Bool) (planes : List Nat) :
    marks plane (if first then planes.map (headerChunk se) else []) = [] := by
  cases first with
  | false => rfl
  | true =>
    refine List.filterMap_eq_nil_iff.mpr fun c hc => ?_
    obtain ⟨k, -, rfl⟩ := List.mem_map.mp hc
    unfold Chunk.mark
    split <;> rfl

theorem marks_stripe (plane k : Nat) (se : HPLJZjsJbgEncSt) (last : Bool) (data : List UInt8) :
    marks plane [stripeChunk se k last data]
      = if k = plane then [⟨se.yd, last, last⟩] else [] := by
  have hplane : (stripeChunk se k last data).items.lookup .plane = some k := rfl
  by_cases hk : k = plane
  · subst hk
    have hmark : Chunk.mark k (stripeChunk se k last data) = some ⟨se.yd, last, last⟩ := by
      rw [Chunk.mark, if_pos hplane]
      cases last <;> rfl
    rw [marks, List.filterMap_cons_some hmark, if_pos rfl]
    rfl
  · have hmark : Chunk.mark plane (stripeChunk se k last data) = none := by
      rw [Chunk.mark, if_neg (by rw [hplane]; exact fun h => hk (Option.some.inj h))]
    rw [marks, List.filterMap_cons_none hmark, if_neg hk]
    rfl

section Planes

variable {job : JobAttributes} {s : State} {heights : List Nat} {height : Nat} {raster : RasterData}

variable (job s) in
theorem encapsulate_spec (hraster : Carries height raster) :
    (encapsulate job s raster).m_pModeJbig = s.m_pModeJbig ∧
    (encapsulate job s raster).m_iCurRaster =
      (if s.m_iPlaneNumber = 0 ∨ job.color_mode ≠ 0 then s.m_iCurRaster + height
        else s.m_iCurRaster) ∧
    (encapsulate job s raster).m_iPlaneNumber =
      (if job.color_mode = 0 then if s.m_iPlaneNumber + 1 = 4 then 0 else s.m_iPlaneNumber + 1
        else s.m_iPlaneNumber) ∧
    ∀ p, marks p (encapsulate job s raster).sent = marks p s.sent ++
      if (if job.color_mode = 0 then s.m_iPlaneNumber + 1 else 4) = p then
        [⟨height, decide (job.printable_height ≤ (encapsulate job s raster).m_iCurRaster),
          decide (job.printable_height ≤ (encapsulate job s raster).m_iCurRaster)⟩]
      else [] := by
  obtain ⟨data, hdata, hsize, rfl⟩ := hraster
  have hcolor : encapsulate job s raster
      = encapsulateColor job s data (raster.rastersize .color) := by
    rw [encapsulate, hdata]
    exact if_neg (by omega)
  rw [hcolor]
  refine ⟨rfl, rfl, rfl, fun p => ?_⟩
  rw [encapsulateColor]
  dsimp only
  rw [marks_append, marks_append, marks_header, List.append_nil, marks_stripe]

theorem Announced.grey (hgrey : job.color_mode ≠ 0) (h : Announced job heights s)
    (hraster : Carries height raster) :
    Announced job (heights ++ [height]) (encapsulate job s raster) := by
  obtain ⟨-, hcur, hplane, hmarks⟩ := encapsulate_spec job s hraster
  rw [if_pos (.inr hgrey), h.curRaster] at hcur
  rw [if_neg hgrey, h.plane] at hplane
  refine ⟨hplane, ?_, fun p hp => ?_⟩
  · rw [hcur, List.sum_append, List.sum_singleton]
  · have hfour : 4 = p := by simpa [JobAttributes.planes, hgrey, eq_comm] using hp
    rw [hmarks p, if_neg hgrey, if_pos hfour, hcur, h.marks_eq p hp, bandMarks_append, bandMarks,
      bandMarks, Nat.zero_add]

/-- The first `k` planes of a band have been sent. -/
structure Sending (job : JobAttributes) (heights : List Nat) (height k : Nat) (s : State) :
    Prop where
  plane : s.m_iPlaneNumber = k
  curRaster : s.m_iCurRaster = if k = 0 then heights.sum else heights.sum + height
  marks_eq : ∀ i < 4, marks (i + 1) s.sent =
    bandMarks job.printable_height 0 (if i < k then heights ++ [height] else heights)

theorem Sending.encapsulate_plane (hcolor : job.color_mode = 0) {k : Nat} (hk : k < 4)
    (h : Sending job heights height k s) (hraster : Carries height raster) :
    (encapsulate job s raster).m_iPlaneNumber = (if k + 1 = 4 then 0 else k + 1) ∧
    (encapsulate job s raster).m_iCurRaster = heights.sum + height ∧
    ∀ i < 4, marks (i + 1) (encapsulate job s raster).sent = bandMarks job.printable_height 0
      (if i < k + 1 then heights ++ [height] else heights) := by
  obtain ⟨-, hcur, hplane, hmarks⟩ := encapsulate_spec job s hraster
  rw [if_pos hcolor, h.plane] at hplane
  have hrows : (encapsulate job s raster).m_iCurRaster = heights.sum + height := by
    rw [hcur, h.plane, h.curRaster]
    by_cases hzero : k = 0
    · rw [if_pos (.inl hzero), if_pos hzero]
    · rw [if_neg (not_or.mpr ⟨hzero, not_not.mpr hcolor⟩), if_neg hzero]
  refine ⟨hplane, hrows, fun i hi => ?_⟩
  rw [hmarks (i + 1), if_pos hcolor, h.plane, hrows, h.marks_eq i hi]
  rcases Nat.lt_trichotomy i k with hlt | rfl | hgt
  · rw [if_pos hlt, if_neg (by omega), if_pos (by omega), List.append_nil]
  · rw [if_neg (Nat.lt_irrefl _), if_pos rfl, if_pos (Nat.lt_succ_self _), bandMarks_append,
      bandMarks, bandMarks, Nat.zero_add]
  · rw [if_neg (by omega), if_neg (by omega), if_neg (by omega), List.append_nil]

end Planes

/-! ## The compressor of a colour page -/

section Color

variable {jbig : Jbig} {width r j h k : Nat} {m : ModeJbig}

/-- The compressor has `r` rows of a band, and of the next row `j` rasters. -/
structure Filling (width r j : Nat) (m : ModeJbig) : Prop
    extends Page .zjColor width zjcBandHeight m where
  lastRaster : m.m_iLastRaster = zjcBandHeight
  ready : m.iRastersReady = 0
  current : m.m_iCurrentPlane = 0
  plane : m.m_iPlaneNumber = j
  counts : ∀ i < 4, m.m_iCurRasterPerPlane i = if i < j then r + 1 else r

/-- A band of `h` rows is on its way to the encoder, and `k` planes of it are there. -/
structure Handing (width h k : Nat) (m : ModeJbig) : Prop
    extends Page .zjColor width zjcBandHeight m where
  lastRaster : m.m_iLastRaster = h
  ready : m.iRastersReady ≠ 0
  current : m.m_iCurrentPlane = k
  plane : m.m_iPlaneNumber = 0
  counts : ∀ i < k, m.m_iCurRasterPerPlane i = 0

theorem Filling.store_counts (hm : Filling width r j m) (raster : RasterData) {i : Nat}
    (hi : i < 4) : (store m raster).m_iCurRasterPerPlane i = if i < j + 1 then r + 1 else r := by
  show Function.update m.m_iCurRasterPerPlane m.m_iPlaneNumber
    (m.m_iCurRasterPerPlane m.m_iPlaneNumber + 1) i = _
  rw [hm.plane]
  rcases Nat.lt_trichotomy i j with hlt | rfl | hgt
  · rw [Function.update_of_ne (Nat.ne_of_lt hlt), hm.counts i hi, if_pos hlt,
      if_pos (Nat.lt_succ_of_lt hlt)]
  · rw [Function.update_self, hm.counts i hi, if_neg (Nat.lt_irrefl _),
      if_pos (Nat.lt_succ_self _)]
  · rw [Function.update_of_ne (Nat.ne_of_gt hgt), hm.counts i hi, if_neg (by omega),
      if_neg (by omega)]

theorem Filling.store_last (hm : Filling width r 3 m) (raster : RasterData) :
    (store m raster).m_iPlaneNumber = 3 ∧ (store m raster).m_iCurRasterPerPlane 3 = r + 1 ∧
      (store m raster).m_iLastRaster = zjcBandHeight :=
  ⟨hm.plane, (hm.store_counts raster (by decide)).trans (if_pos (by decide)), hm.lastRaster⟩

variable (jbig) in
theorem Filling.plane_step (hm : Filling width r j m) (hj : j < 3) (raster : RasterData) :
    ∃ m', process jbig m (some raster) = (m', false) ∧ Filling width r (j + 1) m' := by
  have hplane : (store m raster).m_iPlaneNumber = j := hm.plane
  have hresult : processZJColor m raster =
      ({ store m raster with m_iPlaneNumber := (store m raster).m_iPlaneNumber + 1 }, false) := by
    rw [processZJColor]
    dsimp only
    rw [if_neg (by rw [hplane]; rintro ⟨-, hthird⟩; omega), if_neg (by rw [hplane]; omega)]
  refine ⟨_, (process_color jbig (.inl rfl) hm.toPage hresult).trans
    (if_neg (not_not_intro hm.ready)), ?_⟩
  exact { hm with
    plane := congrArg (· + 1) hm.plane
    counts := fun i hi => hm.store_counts raster hi }

variable (jbig) in
theorem Filling.row_step (hm : Filling width r 3 m) (hr : r + 1 < zjcBandHeight)
    (raster : RasterData) :
    ∃ m', process jbig m (some raster) = (m', false) ∧ Filling width (r + 1) 0 m' := by
  obtain ⟨hplane, hcount, hlast⟩ := hm.store_last raster
  have hresult : processZJColor m raster =
      ({ store m raster with
        m_pszCurPtr := (store m raster).m_pszCurPtr
          + (store m raster).m_iBPP * (store m raster).m_iWidth
        m_iPlaneNumber := 0 }, false) := by
    rw [processZJColor]
    dsimp only
    rw [if_neg (by rw [hplane, hcount, hlast]; rintro ⟨hfull, -⟩; lia),
      if_pos (by rw [hplane])]
  refine ⟨_, (process_color jbig (.inl rfl) hm.toPage hresult).trans
    (if_neg (not_not_intro hm.ready)), ?_⟩
  exact { hm with
    plane := rfl
    counts := fun i hi => by
      rw [if_neg (Nat.not_lt_zero _)]
      exact (hm.store_counts raster hi).trans (if_pos hi) }

variable (jbig) in
theorem Filling.band_step (hm : Filling width r 3 m) (hr : r + 1 = zjcBandHeight)
    (raster : RasterData) :
    ∃ m', process jbig m (some raster) = (m', true) ∧ Handing width zjcBandHeight 0 m' := by
  obtain ⟨hplane, hcount, hlast⟩ := hm.store_last raster
  have hresult : processZJColor m raster =
      ({ store m raster with
        iRastersReady := 1
        m_pszCurPtr := 0
        m_iPlaneNumber := 0 }, true) := by
    rw [processZJColor]
    dsimp only
    rw [if_pos (by rw [hplane, hcount, hlast]; exact ⟨hr, rfl⟩)]
  refine ⟨_, (process_color jbig (.inl rfl) hm.toPage hresult).trans
    (if_pos Nat.one_ne_zero), ?_⟩
  exact { hm with
    lastRaster := hm.lastRaster
    ready := Nat.one_ne_zero
    current := hm.current
    plane := rfl
    counts := fun i hi => absurd hi (Nat.not_lt_zero i) }

theorem Filling.flush_rows (hm : Filling width r 0 m) (hr : 0 < r) :
    Handing width r 0 (flush jbig m) := by
  have hrows : m.m_iCurRasterPerPlane m.m_iPlaneNumber = r := by
    rw [hm.plane, hm.counts 0 (by decide), if_neg (Nat.not_lt_zero 0)]
  have hplanes : ¬ m.m_iPlanes = 1 := by
    rw [hm.planes]
    decide
  rw [flush, hrows, if_pos hr]
  dsimp only
  rw [if_neg hplanes]
  exact { hm with
    lastRaster := rfl
    ready := Nat.one_ne_zero
    current := hm.current
    plane := hm.plane
    counts := fun i hi => absurd hi (Nat.not_lt_zero i) }

theorem flush_none (h : m.m_iCurRasterPerPlane m.m_iPlaneNumber = 0) : flush jbig m = m := by
  rw [flush, h]
  exact if_neg (Nat.lt_irrefl 0)

theorem nextOutputRaster_none (h : m.iRastersReady = 0) : nextOutputRaster jbig m = (m, none) :=
  if_pos h

theorem Handing.next (hjbig : Reports jbig) (hm : Handing width h k m) (hk : k < 3)
    (hh : h ≤ zjcBandHeight) :
    ∃ m' raster, nextOutputRaster jbig m = (m', some raster) ∧ Handing width h (k + 1) m' ∧
      Carries h raster := by
  have hraster := nextOutputRaster_eq jbig hm.ready hm.planes
  rw [hm.current, if_neg (by omega)] at hraster
  refine ⟨_, _, hraster, ?_, carries_output hjbig hh (by rw [← hm.lastRaster]; rfl)
    (by rw [← hm.lastRaster]; rfl)⟩
  exact { hm with
    ready := Nat.one_ne_zero
    current := congrArg (· + 1) hm.current
    counts := fun i hi => by
      show Function.update m.m_iCurRasterPerPlane m.m_iCurrentPlane 0 i = 0
      rw [hm.current]
      by_cases hik : i = k
      · rw [hik, Function.update_self]
      · rw [Function.update_of_ne hik, hm.counts i (by omega)] }

theorem Handing.last (hjbig : Reports jbig) (hm : Handing width h 3 m) (hh : h ≤ zjcBandHeight) :
    ∃ m' raster, nextOutputRaster jbig m = (m', some raster) ∧ Filling width 0 0 m' ∧
      Carries h raster := by
  have hraster := nextOutputRaster_eq jbig hm.ready hm.planes
  rw [hm.current, if_pos rfl] at hraster
  refine ⟨_, _, hraster, ?_, carries_output hjbig hh (by rw [← hm.lastRaster]; rfl)
    (by rw [← hm.lastRaster]; rfl)⟩
  exact { hm with
    lastRaster := hm.height_eq
    ready := rfl
    current := rfl
    plane := hm.plane
    counts := fun i hi => by
      show Function.update m.m_iCurRasterPerPlane m.m_iCurrentPlane 0 i = _
      rw [hm.current, if_neg (Nat.not_lt_zero i)]
      by_cases hik : i = 3
      · rw [hik, Function.update_self]
      · rw [Function.update_of_ne hik, hm.counts i (by omega)] }

end Color

/-! ## The compressor of a grey page -/

section Grey

variable {jbig : Jbig} {r h : Nat} {m : ModeJbig}

/-- The compressor has `r` rows of a band of a single plane. -/
structure GreyFilling (r : Nat) (m : ModeJbig) : Prop where
  planes : m.m_iPlanes = 1
  platform : m.m_ezj_platform = .zjColor
  orgHeight : m.m_iOrgHeight = zjcBandHeight
  lastRaster : m.m_iLastRaster = zjcBandHeight
  ready : m.iRastersReady = 0
  plane : m.m_iPlaneNumber = 0
  count : m.m_iCurRasterPerPlane 0 = r

/-- A band of `h` rows of a single plane has been compressed. -/
structure GreyReady (h : Nat) (m : ModeJbig) : Prop where
  planes : m.m_iPlanes = 1
  platform : m.m_ezj_platform = .zjColor
  orgHeight : m.m_iOrgHeight = zjcBandHeight
  ready : m.iRastersReady ≠ 0
  plane : m.m_iPlaneNumber = 0
  count : m.m_iCurRasterPerPlane 0 = 0
  carries : Carries h (output m)

theorem GreyFilling.process_eq (hm : GreyFilling r m) {raster : RasterData}
    {next : ModeJbig × Bool} (hnext : processZXStream jbig m raster = next) :
    process jbig m (some raster) =
      if next.1.iRastersReady ≠ 0 then
        ({ next.1 with
          m_iCurRasterPerPlane :=
            Function.update next.1.m_iCurRasterPerPlane next.1.m_iPlaneNumber 0
          m_pszCurPtr := 0 }, next.2)
      else next := by
  subst hnext
  unfold process
  dsimp only
  rw [hm.platform]
  dsimp only
  rw [if_pos hm.planes]

theorem GreyFilling.count_succ (hm : GreyFilling r m) :
    Function.update m.m_iCurRasterPerPlane 0 (m.m_iCurRasterPerPlane 0 + 1) 0 = r + 1 := by
  rw [Function.update_self, hm.count]

variable (jbig) in
theorem GreyFilling.row_step (hm : GreyFilling r m) (hr : r + 1 < zjcBandHeight)
    (raster : RasterData) :
    ∃ m', process jbig m (some raster) = (m', false) ∧ GreyFilling (r + 1) m' := by
  have hmore : ¬ Function.update m.m_iCurRasterPerPlane 0 (m.m_iCurRasterPerPlane 0 + 1) 0
      = m.m_iLastRaster := by
    rw [hm.count_succ, hm.lastRaster]
    omega
  have hresult : processZXStream jbig m raster = (_, false) := if_neg hmore
  refine ⟨_, (hm.process_eq hresult).trans (if_neg (not_not_intro hm.ready)), ?_⟩
  exact { hm with count := hm.count_succ }

theorem GreyFilling.band_step (hjbig : Reports jbig) (hm : GreyFilling r m)
    (hr : r + 1 = zjcBandHeight) (raster : RasterData) :
    ∃ m', process jbig m (some raster) = (m', true) ∧ GreyReady zjcBandHeight m' := by
  have hfull : Function.update m.m_iCurRasterPerPlane 0 (m.m_iCurRasterPerPlane 0 + 1) 0
      = m.m_iLastRaster := by
    rw [hm.count_succ, hm.lastRaster, hr]
  have hresult : processZXStream jbig m raster = (_, true) := if_pos hfull
  refine ⟨_, (hm.process_eq hresult).trans (if_pos Nat.one_ne_zero), ?_⟩
  exact {
    planes := hm.planes
    platform := hm.platform
    orgHeight := hm.orgHeight
    ready := Nat.one_ne_zero
    plane := hm.plane
    count := by
      show Function.update _ m.m_iPlaneNumber 0 0 = 0
      rw [hm.plane, Function.update_self]
    carries := carries_output hjbig (Nat.le_refl _) (by rw [← hm.lastRaster]; rfl)
      (by rw [← hm.lastRaster]; rfl) }

theorem GreyFilling.flush_rows (hjbig : Reports jbig) (hm : GreyFilling r m) (hr : 0 < r)
    (hle : r ≤ zjcBandHeight) : GreyReady r (flush jbig m) := by
  have hrows : m.m_iCurRasterPerPlane m.m_iPlaneNumber = r := by rw [hm.plane, hm.count]
  rw [flush, hrows, if_pos hr]
  dsimp only
  rw [if_pos hm.planes]
  exact {
    planes := hm.planes
    platform := hm.platform
    orgHeight := hm.orgHeight
    ready := Nat.one_ne_zero
    plane := hm.plane
    count := by
      show Function.update m.m_iCurRasterPerPlane 0 0 0 = 0
      exact Function.update_self ..
    carries := carries_output hjbig hle rfl rfl }

variable (jbig) in
theorem GreyReady.next (hm : GreyReady h m) :
    ∃ m' raster, nextOutputRaster jbig m = (m', some raster) ∧ GreyFilling 0 m' ∧
      Carries h raster := by
  have hfour : ¬ m.m_iPlanes = 4 := by
    rw [hm.planes]
    decide
  refine ⟨{ m with iRastersReady := 0, m_iCurrentPlane := 0, m_iLastRaster := m.m_iOrgHeight },
    output m, ?_, ?_, hm.carries⟩
  · rw [nextOutputRaster, if_neg hm.ready, if_neg hfour]
    dsimp only
    rw [if_pos (.inl hm.planes)]
  · exact {
      planes := hm.planes
      platform := hm.platform
      orgHeight := hm.orgHeight
      lastRaster := hm.orgHeight
      ready := rfl
      plane := hm.plane
      count := hm.count }

end Grey

/-! ## A band is sent -/

section Bands

variable {job : JobAttributes} {jbig : Jbig} {width h : Nat} {heights : List Nat} {s : State}

def Has (job : JobAttributes) (width r : Nat) (m : ModeJbig) : Prop :=
  if job.color_mode = 0 then Filling width r 0 m else GreyFilling r m

theorem planes_color (hcolor : job.color_mode = 0) : job.planes = [1, 2, 3, 4] := if_pos hcolor

theorem Announced.sending (hcolor : job.color_mode = 0) (hs : Announced job heights s) :
    Sending job heights h 0 s := by
  refine ⟨hs.plane, hs.curRaster, fun i hi => ?_⟩
  rw [if_neg (Nat.not_lt_zero i)]
  refine hs.marks_eq (i + 1) ?_
  rw [planes_color hcolor]
  have hcases : i = 0 ∨ i = 1 ∨ i = 2 ∨ i = 3 := by lia
  rcases hcases with rfl | rfl | rfl | rfl <;> decide

theorem Sending.step (hcolor : job.color_mode = 0) {k : Nat} (hk : k < 3)
    (hs : Sending job heights h k s) {raster : RasterData} (hraster : Carries h raster) :
    Sending job heights h (k + 1) (encapsulate job s raster) := by
  obtain ⟨hplane, hcur, hmarks⟩ := hs.encapsulate_plane hcolor (by omega) hraster
  rw [if_neg (by omega)] at hplane
  exact ⟨hplane, by rw [hcur, if_neg (Nat.succ_ne_zero k)], hmarks⟩

theorem Sending.announced (hcolor : job.color_mode = 0) (hs : Sending job heights h 3 s)
    {raster : RasterData} (hraster : Carries h raster) :
    Announced job (heights ++ [h]) (encapsulate job s raster) := by
  obtain ⟨hplane, hcur, hmarks⟩ := hs.encapsulate_plane hcolor (by decide) hraster
  refine ⟨hplane, by rw [hcur, List.sum_append, List.sum_singleton], fun p hp => ?_⟩
  rw [planes_color hcolor] at hp
  obtain ⟨i, hi, rfl⟩ : ∃ i < 4, p = i + 1 := by
    simp only [List.mem_cons, List.not_mem_nil, or_false] at hp
    exact ⟨p - 1, by lia, by lia⟩
  rw [hmarks i hi, if_pos hi]

theorem encapsulate_compressor (s : State) (raster : RasterData) :
    (encapsulate job s raster).m_pModeJbig = s.m_pModeJbig := by
  unfold encapsulate
  split
  · rfl
  · split <;> rfl

theorem pump_next {fuel : Nat} {m' : ModeJbig} {raster : RasterData}
    (hnext : nextOutputRaster jbig s.m_pModeJbig = (m', some raster)) :
    pump job jbig (fuel + 1) s
      = pump job jbig fuel (encapsulate job { s with m_pModeJbig := m' } raster) := by
  rw [pump, hnext]

theorem pump_end {fuel : Nat} (hready : s.m_pModeJbig.iRastersReady = 0) :
    pump job jbig (fuel + 1) s = some s := by
  rw [pump, nextOutputRaster_none hready]

theorem Announced.compressor (hs : Announced job heights s) (m : ModeJbig) :
    Announced job heights { s with m_pModeJbig := m } := ⟨hs.plane, hs.curRaster, hs.marks_eq⟩

theorem Sending.compressor {k : Nat} (hs : Sending job heights h k s) (m : ModeJbig) :
    Sending job heights h k { s with m_pModeJbig := m } := ⟨hs.plane, hs.curRaster, hs.marks_eq⟩

theorem Handing.pump_plane (hjbig : Reports jbig) (hcolor : job.color_mode = 0) {k : Nat}
    (fuel : Nat) (hk : k < 3) (hh : h ≤ zjcBandHeight) (hm : Handing width h k s.m_pModeJbig)
    (hs : Sending job heights h k s) :
    ∃ s', pump job jbig (fuel + 1) s = pump job jbig fuel s' ∧
      Handing width h (k + 1) s'.m_pModeJbig ∧ Sending job heights h (k + 1) s' := by
  obtain ⟨m', raster, hnext, hm', hraster⟩ := hm.next hjbig hk hh
  refine ⟨_, pump_next hnext, ?_, (hs.compressor m').step hcolor hk hraster⟩
  rwa [encapsulate_compressor]

theorem Handing.pump_band (hjbig : Reports jbig) (hcolor : job.color_mode = 0)
    (hh : h ≤ zjcBandHeight) (hm : Handing width h 0 s.m_pModeJbig) (hs : Announced job heights s) :
    ∃ s', pump job jbig 5 s = some s' ∧ Has job width 0 s'.m_pModeJbig ∧
      Announced job (heights ++ [h]) s' := by
  obtain ⟨s₁, hpump₁, hm₁, hs₁⟩ := hm.pump_plane hjbig hcolor 4 (by decide) hh
    (hs.sending hcolor)
  obtain ⟨s₂, hpump₂, hm₂, hs₂⟩ := hm₁.pump_plane hjbig hcolor 3 (by decide) hh hs₁
  obtain ⟨s₃, hpump₃, hm₃, hs₃⟩ := hm₂.pump_plane hjbig hcolor 2 (by decide) hh hs₂
  obtain ⟨m₄, raster, hnext, hm₄, hraster⟩ := hm₃.last hjbig hh
  have hfilling : Filling width 0 0
      (encapsulate job { s₃ with m_pModeJbig := m₄ } raster).m_pModeJbig := by
    rwa [encapsulate_compressor]
  refine ⟨_, ?_, ?_, (hs₃.compressor m₄).announced hcolor hraster⟩
  · rw [hpump₁, hpump₂, hpump₃, pump_next hnext, pump_end hfilling.ready]
  · rwa [Has, if_pos hcolor]

variable (jbig width) in
theorem GreyReady.pump_band (hgrey : job.color_mode ≠ 0) (hm : GreyReady h s.m_pModeJbig)
    (hs : Announced job heights s) :
    ∃ s', pump job jbig 5 s = some s' ∧ Has job width 0 s'.m_pModeJbig ∧
      Announced job (heights ++ [h]) s' := by
  obtain ⟨m', raster, hnext, hm', hraster⟩ := hm.next jbig
  have hfilling : GreyFilling 0
      (encapsulate job { s with m_pModeJbig := m' } raster).m_pModeJbig := by
    rwa [encapsulate_compressor]
  refine ⟨_, ?_, ?_, (hs.compressor m').grey hgrey hraster⟩
  · rw [pump_next hnext, pump_end hfilling.ready]
  · rwa [Has, if_neg hgrey]

/-! ## The rows of a page -/

/-- A page with `n` rows, `r` of which are still in the compressor. -/
def Filled (job : JobAttributes) (width n r : Nat) (s : State) : Prop :=
  ∃ heights : List Nat, (∀ h ∈ heights, 0 < h) ∧ heights.sum + r = n ∧
    Announced job heights s ∧ Has job width r s.m_pModeJbig

theorem Filled.of_band {n : Nat} (hpos : ∀ h ∈ heights, 0 < h) (hh : 0 < h)
    (hsum : heights.sum + h = n) (hs : Announced job (heights ++ [h]) s)
    (hm : Has job width 0 s.m_pModeJbig) : Filled job width n 0 s := by
  refine ⟨heights ++ [h], fun h' hh' => ?_, ?_, hs, hm⟩
  · rcases List.mem_append.mp hh' with hmem | hmem
    · exact hpos h' hmem
    · rwa [List.mem_singleton.mp hmem]
  · rw [List.sum_append, List.sum_singleton, hsum, Nat.add_zero]

theorem execute_kept {raster : RasterData} {m' : ModeJbig}
    (hprocess : process jbig s.m_pModeJbig (some raster) = (m', false)) :
    execute job jbig s raster = some { s with m_pModeJbig := m' } := by
  rw [execute, hprocess]
  rfl

theorem execute_band {raster : RasterData} {m' : ModeJbig}
    (hprocess : process jbig s.m_pModeJbig (some raster) = (m', true)) :
    execute job jbig s raster = pump job jbig 5 { s with m_pModeJbig := m' } := by
  rw [execute, hprocess]
  rfl

variable (jbig) in
theorem Filling.execute_plane {r j : Nat} (hj : j < 3) (hm : Filling width r j s.m_pModeJbig)
    (hs : Announced job heights s) (raster : RasterData) :
    ∃ s', execute job jbig s raster = some s' ∧ Filling width r (j + 1) s'.m_pModeJbig ∧
      Announced job heights s' := by
  obtain ⟨m', hprocess, hm'⟩ := hm.plane_step jbig hj raster
  exact ⟨_, execute_kept hprocess, hm', hs.compressor m'⟩

theorem color_row (hjbig : Reports jbig) (hcolor : job.color_mode = 0) {n r : Nat}
    (hr : r < zjcBandHeight) (hs : Filled job width n r s) (rasters : List RasterData)
    (hlength : rasters.length = 4) :
    ∃ s' r', rasters.foldlM (execute job jbig) s = some s' ∧ r' < zjcBandHeight ∧
      Filled job width (n + 1) r' s' := by
  obtain ⟨heights, hpos, hsum, hs, hm⟩ := hs
  rw [Has, if_pos hcolor] at hm
  obtain ⟨a, b, c, d, rfl⟩ : ∃ a b c d, rasters = [a, b, c, d] := by
    match rasters, hlength with
    | [a, b, c, d], _ => exact ⟨a, b, c, d, rfl⟩
  obtain ⟨s₁, hs₁, hm₁, hann₁⟩ := hm.execute_plane jbig (by decide) hs a
  obtain ⟨s₂, hs₂, hm₂, hann₂⟩ := hm₁.execute_plane jbig (by decide) hann₁ b
  obtain ⟨s₃, hs₃, hm₃, hann₃⟩ := hm₂.execute_plane jbig (by decide) hann₂ c
  have hrun : [a, b, c, d].foldlM (execute job jbig) s = execute job jbig s₃ d := by
    simp only [List.foldlM_cons, List.foldlM_nil, hs₁, hs₂, hs₃, Option.bind_eq_bind,
      Option.bind_some, Option.pure_def, Option.bind_fun_some]
  rw [hrun]
  rcases Nat.lt_or_eq_of_le (Nat.succ_le_of_lt hr) with hmore | hfull
  · obtain ⟨m', hprocess, hm'⟩ := hm₃.row_step jbig hmore d
    refine ⟨_, r + 1, execute_kept hprocess, hmore, heights, hpos, ?_, hann₃.compressor m', ?_⟩
    · rw [← hsum, Nat.add_assoc]
    · rwa [Has, if_pos hcolor]
  · obtain ⟨m', hprocess, hm'⟩ := hm₃.band_step jbig hfull d
    obtain ⟨s', hpump, hhas, hann⟩ :=
      Handing.pump_band (s := { s₃ with m_pModeJbig := m' }) hjbig hcolor (Nat.le_refl _) hm'
        (hann₃.compressor m')
    refine ⟨s', 0, (execute_band hprocess).trans hpump, by decide, ?_⟩
    exact .of_band hpos (by decide) (by rw [← hsum, ← hfull]; omega) hann hhas

theorem grey_row (hjbig : Reports jbig) (hgrey : job.color_mode ≠ 0) {n r : Nat}
    (hr : r < zjcBandHeight) (hs : Filled job width n r s) (rasters : List RasterData)
    (hlength : rasters.length = 1) :
    ∃ s' r', rasters.foldlM (execute job jbig) s = some s' ∧ r' < zjcBandHeight ∧
      Filled job width (n + 1) r' s' := by
  obtain ⟨heights, hpos, hsum, hs, hm⟩ := hs
  rw [Has, if_neg hgrey] at hm
  obtain ⟨a, rfl⟩ := List.length_eq_one_iff.mp hlength
  have hrun : [a].foldlM (execute job jbig) s = execute job jbig s a := by
    simp only [List.foldlM_cons, List.foldlM_nil, Option.bind_eq_bind, Option.pure_def,
      Option.bind_fun_some]
  rw [hrun]
  rcases Nat.lt_or_eq_of_le (Nat.succ_le_of_lt hr) with hmore | hfull
  · obtain ⟨m', hprocess, hm'⟩ := hm.row_step jbig hmore a
    refine ⟨_, r + 1, execute_kept hprocess, hmore, heights, hpos, ?_, hs.compressor m', ?_⟩
    · rw [← hsum, Nat.add_assoc]
    · rwa [Has, if_neg hgrey]
  · obtain ⟨m', hprocess, hm'⟩ := hm.band_step hjbig hfull a
    obtain ⟨s', hpump, hhas, hann⟩ :=
      GreyReady.pump_band jbig width (s := { s with m_pModeJbig := m' })
        hgrey hm' (hs.compressor m')
    refine ⟨s', 0, (execute_band hprocess).trans hpump, by decide, ?_⟩
    exact .of_band hpos (by decide) (by rw [← hsum, ← hfull]; omega) hann hhas

theorem page_rows (hjbig : Reports jbig) (rows : List (Row job)) {n r : Nat}
    (hr : r < zjcBandHeight) (hs : Filled job width n r s) :
    ∃ s' r', (rows.flatMap List.ofFn).foldlM (execute job jbig) s = some s' ∧
      r' < zjcBandHeight ∧ Filled job width (n + rows.length) r' s' := by
  induction rows generalizing s n r with
  | nil => exact ⟨s, r, rfl, hr, hs⟩
  | cons row rows ih =>
    have hrow : ∃ s' r', (List.ofFn row).foldlM (execute job jbig) s = some s' ∧
        r' < zjcBandHeight ∧ Filled job width (n + 1) r' s' := by
      by_cases hcolor : job.color_mode = 0
      · exact color_row hjbig hcolor hr hs _ (by rw [List.length_ofFn]; exact if_pos hcolor)
      · exact grey_row hjbig hcolor hr hs _ (by rw [List.length_ofFn]; exact if_neg hcolor)
    obtain ⟨s₁, r₁, hrun₁, hr₁, hs₁⟩ := hrow
    obtain ⟨s₂, r₂, hrun₂, hr₂, hs₂⟩ := ih hr₁ hs₁
    refine ⟨s₂, r₂, ?_, hr₂, ?_⟩
    · rw [List.flatMap_cons, List.foldlM_append, hrun₁]
      exact hrun₂
    · rwa [List.length_cons, Nat.add_comm rows.length 1, ← Nat.add_assoc]

theorem Filled.flushed (hjbig : Reports jbig) {n r : Nat} (hr : r < zjcBandHeight)
    (hs : Filled job width n r s) :
    ∃ s', pump job jbig 5 { s with m_pModeJbig := flush jbig s.m_pModeJbig } = some s' ∧
      Filled job width n 0 s' := by
  obtain ⟨heights, hpos, hsum, hann, hm⟩ := hs
  have hann' := hann.compressor (flush jbig s.m_pModeJbig)
  by_cases hcolor : job.color_mode = 0
  · rw [Has, if_pos hcolor] at hm
    rcases Nat.eq_zero_or_pos r with rfl | hpositive
    · have hnone : flush jbig s.m_pModeJbig = s.m_pModeJbig :=
        flush_none (by rw [hm.plane, hm.counts 0 (by decide)]; rfl)
      rw [hnone]
      exact ⟨s, pump_end hm.ready, heights, hpos, hsum, hann, by rwa [Has, if_pos hcolor]⟩
    · obtain ⟨s', hpump, hhas, hlast⟩ := Handing.pump_band
        (s := { s with m_pModeJbig := flush jbig s.m_pModeJbig }) hjbig hcolor
        (Nat.le_of_lt hr) (hm.flush_rows hpositive) hann'
      exact ⟨s', hpump, .of_band hpos hpositive hsum hlast hhas⟩
  · rw [Has, if_neg hcolor] at hm
    rcases Nat.eq_zero_or_pos r with rfl | hpositive
    · have hnone : flush jbig s.m_pModeJbig = s.m_pModeJbig :=
        flush_none (by rw [hm.plane, hm.count])
      rw [hnone]
      exact ⟨s, pump_end hm.ready, heights, hpos, hsum, hann, by rwa [Has, if_neg hcolor]⟩
    · obtain ⟨s', hpump, hhas, hlast⟩ := GreyReady.pump_band jbig width
        (s := { s with m_pModeJbig := flush jbig s.m_pModeJbig }) hcolor
        (hm.flush_rows hjbig hpositive (Nat.le_of_lt hr)) hann'
      exact ⟨s', hpump, .of_band hpos hpositive hsum hlast hhas⟩

/-! ## The end of a page -/

theorem encapsulate_noRaster (s : State) : encapsulate job s noRaster = s := rfl

theorem nextInto_none (hready : s.m_pModeJbig.iRastersReady = 0) (raster : RasterData) :
    nextInto jbig s raster = (s, raster) := by
  rw [nextInto, nextOutputRaster_none hready]
  rfl

theorem shortPlane_empty (hready : s.m_pModeJbig.iRastersReady = 0)
    (hcount : s.m_pModeJbig.m_iCurRasterPerPlane s.m_pModeJbig.m_iPlaneNumber = 0) :
    shortPlane job jbig (s, noRaster) = (s, noRaster) := by
  rw [shortPlane, flush_none hcount]
  dsimp only
  rw [nextInto_none hready, encapsulate_noRaster]

theorem fullBands_remaining (raster : RasterData) {rounds : Nat} {remaining : Int}
    (hrounds : remaining ≤ rounds) :
    (fullBands job raster rounds remaining s).2 ≤ 0 := by
  have hband : zjcBandHeight = 100 := rfl
  induction rounds generalizing remaining s with
  | zero => exact hrounds
  | succ rounds ih =>
    rw [fullBands]
    split
    · exact ih (by omega)
    · next hdone => exact Int.not_lt.mp hdone

theorem fullBands_noRaster (rounds : Nat) (remaining : Int) :
    (fullBands job noRaster rounds remaining s).1 = s := by
  induction rounds generalizing remaining with
  | zero => rfl
  | succ rounds ih =>
    rw [fullBands]
    split
    · rw [Function.iterate_fixed (encapsulate_noRaster s)]
      exact ih _
    · rfl

/-- On a grey page each round sends the one row that the band was made of, by induction on the
rounds. -/
theorem fullBands_grey (hgrey : job.color_mode ≠ 0) {raster : RasterData}
    (hraster : Carries 1 raster) (hpos : ∀ h ∈ heights, 0 < h) (rounds : Nat)
    {remaining : Int} (hremaining : 0 < remaining) (hs : Announced job heights s) :
    ∃ heights' : List Nat, (∀ h ∈ heights', 0 < h) ∧ heights.sum ≤ heights'.sum ∧
      ((heights'.sum : Int) - heights.sum) * 100 < remaining + 100 ∧
      Announced job heights' (fullBands job raster rounds remaining s).1 := by
  have hband : zjcBandHeight = 100 := rfl
  induction rounds generalizing remaining s heights with
  | zero => exact ⟨heights, hpos, Nat.le_refl _, by lia, hs⟩
  | succ rounds ih =>
    have hone : job.numPlanes = 1 := if_neg hgrey
    have hstep := hs.grey hgrey hraster
    have hsum : (heights ++ [1]).sum = heights.sum + 1 := by
      rw [List.sum_append, List.sum_singleton]
    have hpos' : ∀ h ∈ heights ++ [1], 0 < h := fun h hh =>
      (List.mem_append.mp hh).elim (hpos h) fun hh => by
        rw [List.mem_singleton.mp hh]
        exact Nat.one_pos
    rw [fullBands, if_pos hremaining, hone, Function.iterate_one]
    -- a round adds one row and takes off a hundred
    by_cases hmore : 0 < remaining - zjcBandHeight
    · obtain ⟨heights', hpos'', hle, hlow, hann⟩ := ih hpos' hmore hstep
      exact ⟨heights', hpos'', by lia, by lia, hann⟩
    · refine ⟨heights ++ [1], hpos', by lia, by lia, ?_⟩
      have hdone : (fullBands job raster rounds (remaining - zjcBandHeight)
          (encapsulate job s raster)).1 = encapsulate job s raster := by
        cases rounds with
        | zero => rfl
        | succ rounds => rw [fullBands, if_neg hmore]
      rwa [hdone]

theorem Has.empty {m : ModeJbig} (hm : Has job width 0 m) :
    m.iRastersReady = 0 ∧ m.m_iCurRasterPerPlane m.m_iPlaneNumber = 0 := by
  unfold Has at hm
  split at hm
  · exact ⟨hm.ready, by rw [hm.plane, hm.counts 0 (by decide), if_neg (Nat.lt_irrefl 0)]⟩
  · exact ⟨hm.ready, by rw [hm.plane, hm.count]⟩

variable (jbig) in
theorem blankBand_color (hcolor : job.color_mode = 0) (hm : Has job width 0 s.m_pModeJbig) :
    ∃ m', blankBand jbig s = ({ s with m_pModeJbig := m' }, noRaster) := by
  rw [Has, if_pos hcolor] at hm
  obtain ⟨m', hprocess, hm'⟩ := hm.plane_step jbig (by decide) noRaster
  -- `Flush` asks for the plane that comes next
  have hnone : flush jbig m' = m' := flush_none (by
    rw [hm'.plane, hm'.counts 1 (by decide), if_neg (Nat.lt_irrefl 1)])
  refine ⟨m', ?_⟩
  rw [blankBand, hprocess, hnone]
  exact nextInto_none hm'.ready noRaster

theorem blankBand_grey (hjbig : Reports jbig) (hgrey : job.color_mode ≠ 0)
    (hm : Has job width 0 s.m_pModeJbig) :
    ∃ m' raster, blankBand jbig s = ({ s with m_pModeJbig := m' }, raster) ∧
      Carries 1 raster := by
  rw [Has, if_neg hgrey] at hm
  obtain ⟨m₁, hprocess, hm₁⟩ := hm.row_step jbig (by decide) noRaster
  obtain ⟨m₂, raster, hnext, -, hraster⟩ :=
    (hm₁.flush_rows hjbig Nat.one_pos (by decide)).next jbig
  refine ⟨m₂, raster, ?_, hraster⟩
  rw [blankBand, hprocess, nextInto]
  dsimp only
  rw [hnext]
  rfl

theorem sendBlankBands_spec (hjbig : Reports jbig) {n : Nat} (hs : Filled job width n 0 s) :
    (job.printable_height ≤ n → sendBlankBands job jbig s = s) ∧
    ((n : Int) < job.printable_height → ∃ heights' : List Nat, (∀ h ∈ heights', 0 < h) ∧
      (heights'.sum : Int) < job.printable_height ∧
      Announced job heights' (sendBlankBands job jbig s)) := by
  have hband : zjcBandHeight = 100 := rfl
  obtain ⟨heights, hpos, hsum, hann, hm⟩ := hs
  obtain rfl : s.m_iCurRaster = n := by rw [hann.curRaster, ← hsum, Nat.add_zero]
  rw [sendBlankBands]
  dsimp only
  constructor
  · exact fun hall => if_pos (by lia)
  · intro hmissing
    rw [if_neg (by lia)]
    by_cases hshort : job.printable_height - s.m_iCurRaster < zjcBandHeight
    · rw [if_pos hshort]
      obtain ⟨hready, hcount⟩ := hm.empty
      refine ⟨heights, hpos, by lia, ?_⟩
      rw [Function.iterate_fixed (shortPlane_empty (by exact hready) (by exact hcount))]
      exact hann.compressor _
    · rw [if_neg hshort, if_pos (fullBands_remaining _ (by lia))]
      by_cases hcolor : job.color_mode = 0
      · obtain ⟨m', hblank⟩ := blankBand_color jbig hcolor hm
        rw [hblank, fullBands_noRaster]
        exact ⟨heights, hpos, by lia, hann.compressor m'⟩
      · have hremaining : 0 < job.printable_height - s.m_iCurRaster := by lia
        obtain ⟨m', raster, hblank, hraster⟩ := blankBand_grey hjbig hcolor hm
        obtain ⟨heights', hpos', hle, hlow, hann'⟩ := fullBands_grey hcolor hraster hpos
          (job.printable_height - s.m_iCurRaster).toNat hremaining (hann.compressor m')
        rw [hblank]
        exact ⟨heights', hpos', by lia, hann'⟩

/-! ## A page -/

theorem page_spec (hjbig : Reports jbig) (hm : Has job width 0 s.m_pModeJbig)
    (rows : List (Row job)) :
    ∃ s', page job jbig s rows = some s' ∧
      (Ends job s'.sent ↔ 0 < rows.length ∧ (rows.length : Int) = job.printable_height) ∧
      (job.printable_height ≤ rows.length → Has job width 0 s'.m_pModeJbig) := by
  have hstart : Filled job width 0 0 (startPage s) :=
    ⟨[], nofun, rfl, ⟨rfl, rfl, fun _ _ => rfl⟩, hm⟩
  obtain ⟨s₁, r, hrun, hr, hs₁⟩ := page_rows hjbig rows (by decide) hstart
  obtain ⟨s₂, hpump, hs₂⟩ := hs₁.flushed hjbig hr
  rw [Nat.zero_add] at hs₂
  refine ⟨sendBlankBands job jbig s₂, ?_, ?_⟩
  · rw [page, hrun, Option.bind_eq_bind, Option.bind_some, hpump]
    rfl
  obtain ⟨hall, hmissing⟩ := sendBlankBands_spec hjbig hs₂
  -- what is missing is not made up for
  rcases Int.lt_or_le rows.length job.printable_height with hlow | hhigh
  · obtain ⟨heights, hpos, hsum, hann⟩ := hmissing hlow
    refine ⟨?_, fun h => absurd h (Int.not_le.mpr hlow)⟩
    rw [hann.ends_iff hpos]
    constructor
    · rintro ⟨-, heq⟩
      omega
    · rintro ⟨-, heq⟩
      omega
  · rw [hall hhigh]
    obtain ⟨heights, hpos, hsum, hann, hhas⟩ := hs₂
    refine ⟨?_, fun _ => hhas⟩
    rw [hann.ends_iff hpos, ← hsum, Nat.add_zero]

theorem pages_spec (hjbig : Reports jbig) (hm : Has job width 0 s.m_pModeJbig)
    (pages : List (List (Row job)))
    (hpages : ∀ rows ∈ pages, (rows.length : Int) = job.printable_height) :
    ∃ s', pages.foldlM (page job jbig) s = some s' ∧ Has job width 0 s'.m_pModeJbig := by
  induction pages generalizing s with
  | nil => exact ⟨s, rfl, hm⟩
  | cons rows pages ih =>
    obtain ⟨s₁, hpage, -, hm₁⟩ := page_spec hjbig hm rows
    have hheight := hpages rows List.mem_cons_self
    obtain ⟨s₂, hrun, hm₂⟩ := ih (hm₁ (by omega)) fun rows' h => hpages rows' (.tail _ h)
    refine ⟨s₂, ?_, hm₂⟩
    rw [List.foldlM_cons, hpage]
    exact hrun

theorem configure_empty {rasterSize : Nat} {heap seedRow : Mem}
    (h : configure job true rasterSize heap seedRow = .ok s) :
    ∃ width, Has job width 0 s.m_pModeJbig := by
  unfold configure ModeJbig.init at h
  rw [if_neg (not_not_intro rfl)] at h
  obtain rfl := Except.ok.inj h
  refine ⟨(rasterSize + 31) / 32 * 4, ?_⟩
  unfold Has
  split
  · next hcolor =>
    have hfour : job.numPlanes = 4 := if_pos hcolor
    exact {
      width_eq := rfl
      height_eq := rfl
      planes := hfour
      bpp := rfl
      platform_eq := rfl
      order := if_pos hfour
      lastRaster := rfl
      ready := rfl
      current := rfl
      plane := rfl
      counts := fun i _ => (if_neg (Nat.not_lt_zero i)).symm }
  · next hgrey =>
    exact {
      planes := if_neg hgrey
      platform := rfl
      orgHeight := rfl
      lastRaster := rfl
      ready := rfl
      plane := rfl
      count := rfl }

/-- **When a page is announced to its end**: it has had all its rows, and is not empty. The pages
before it have had theirs. -/
theorem page_ends_iff (hjbig : Reports jbig) {rasterSize : Nat} {heap seedRow : Mem}
    (hopen : configure job true rasterSize heap seedRow = .ok s) (pages : List (List (Row job)))
    (hpages : ∀ rows ∈ pages, (rows.length : Int) = job.printable_height)
    (rows : List (Row job)) :
    ∃ s₁ s₂, pages.foldlM (page job jbig) s = some s₁ ∧ page job jbig s₁ rows = some s₂ ∧
      (Ends job s₂.sent ↔ 0 < rows.length ∧ (rows.length : Int) = job.printable_height) := by
  obtain ⟨width, hm⟩ := configure_empty hopen
  obtain ⟨s₁, hrun, hm₁⟩ := pages_spec hjbig hm pages hpages
  obtain ⟨s₂, hpage, hends, -⟩ := page_spec hjbig hm₁ rows
  exact ⟨s₁, s₂, hrun, hpage, hends⟩

end Bands

/-! ## A page of two rows -/

def eightBytes (n : Nat) : List UInt8 := (List.range 8).map fun i => (n / 256 ^ i).toUInt8

def headerOnly : Jbig := fun width height _ =>
  (List.replicate 20 0, eightBytes width ++ eightBytes height ++ List.replicate 40 0)

theorem headerOnly_reports : Reports headerOnly where
  header _ _ _ := Nat.le_refl 20
  state _ _ _ := rfl
  yd width h bytes hh := by
    have hbytes : ((headerOnly width h bytes).2.drop 8).take 8 = eightBytes h := rfl
    have hsmall : ∀ h < 101, lowFirst (eightBytes h) = h := by decide +kernel
    rw [hbytes]
    exact hsmall h (Nat.lt_succ_of_le hh)

theorem page_ends_iff_one :
    ∃ s, configure ⟨0, 1⟩ true 1 (fun _ => 0) (fun _ => 0) = .ok s ∧
      ∃ s₁ s₂, [[fun _ => noRaster]].foldlM (page ⟨0, 1⟩ headerOnly) s = some s₁ ∧
        page ⟨0, 1⟩ headerOnly s₁ [fun _ => noRaster] = some s₂ ∧
        (Ends ⟨0, 1⟩ s₂.sent ↔ 0 < 1 ∧ ((1 : Nat) : Int) = 1) :=
  ⟨_, rfl, page_ends_iff headerOnly_reports rfl [[fun _ => noRaster]] (by simp) _⟩

/-- Of the two rows of a colour page the second one is missing, and no blank band is sent. -/
theorem short_page_not_ended :
    ∃ s s', configure ⟨0, 2⟩ true 1 (fun _ => 0) (fun _ => 0) = .ok s ∧
      page ⟨0, 2⟩ headerOnly s [fun _ => noRaster] = some s' ∧ ¬ Ends ⟨0, 2⟩ s'.sent := by
  obtain ⟨s, hopen⟩ : ∃ s, configure ⟨0, 2⟩ true 1 (fun _ => 0) (fun _ => 0) = .ok s := ⟨_, rfl⟩
  obtain ⟨width, hm⟩ := configure_empty hopen
  obtain ⟨s', hpage, hends, -⟩ := page_spec headerOnly_reports hm [fun _ => noRaster]
  refine ⟨s, s', hopen, hpage, fun h => ?_⟩
  exact absurd (hends.mp h).2 (by decide)

end Hplip.Hpcups.LJZjStream
