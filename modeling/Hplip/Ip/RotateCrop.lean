import Mathlib
import Hplip.Ip.RotatePixels
import Hplip.Ip.RotateRuns

/-!
# Rotation by zero

A rectangle that is upright and not scaled is to be cut out of the image. The first row of the
image is above the top of the strip, for the interpolation, but the strip's top is row 0: what
comes out as row `y` is the row before it.
-/

namespace Hplip.Ip.Rotate

open CInt Checked PackedRow

/-! ## Jobs -/

/-- The rectangle of `w` by `h` pixels at column `x₀` and row `y₀`, in its own size. -/
structure Upright (spec : XformSpec) (x₀ y₀ w h : Nat) : Prop where
  upperLeft : highHalf spec.upperLeft = x₀ ∧ lowHalf spec.upperLeft = y₀
  upperRight : highHalf spec.upperRight = x₀ + w ∧ lowHalf spec.upperRight = y₀
  lowerLeft : highHalf spec.lowerLeft = x₀ ∧ lowHalf spec.lowerLeft = y₀ + h
  outputSize : highHalf spec.outputSize = w ∧ lowHalf spec.outputSize = h
  nonempty : 0 < w ∧ 0 < h

/-- The rows of the rectangle: `h` of them, of `w` pixels each. -/
structure ShowsCrop (traits : IpImageTraits) (img : List (List UInt8)) (x₀ y₀ w h : Nat)
    (outs : List (List UInt8)) : Prop where
  rows : outs.length = h
  widths : ∀ row ∈ outs, row.length = bytesFor (traits.iBitsPerPixel.toNat * w)
  pixels : ∀ r < h, ∀ x < w, pixel traits.iBitsPerPixel.toNat (outs.getD r []) x
    = pixel traits.iBitsPerPixel.toNat (img.getD (y₀ + r) []) (x₀ + x)

/-- The calls on an image output the rectangle, and end. -/
def Crops (traits : IpImageTraits) (g : Inst) (img : List (List UInt8)) (x₀ y₀ w h : Nat) : Prop :=
  ∃ calls cs, rotateImage calls g img = .ok cs ∧ EndsDone cs ∧
    ShowsCrop traits img x₀ y₀ w h (rowsOut cs)

/-- The rows of the rectangle repeat those before them, and are white where a 16.16 position of an
`int` does not reach. -/
def Repeats (traits : IpImageTraits) (img : List (List UInt8)) (x₀ y₀ w h : Nat) : Prop :=
  ∀ r < h, ∀ x < w,
    (1 ≤ y₀ + r → y₀ + r < 32768 → pixel traits.iBitsPerPixel.toNat (img.getD (y₀ + r) []) (x₀ + x)
      = pixel traits.iBitsPerPixel.toNat (img.getD (y₀ + r - 1) []) (x₀ + x)) ∧
    (32768 ≤ y₀ + r → pixel traits.iBitsPerPixel.toNat (img.getD (y₀ + r) []) (x₀ + x)
      = List.replicate traits.iBitsPerPixel.toNat (decide (traits.iBitsPerPixel ≠ 1)))

/-! ## Rows -/

/-- A pixel of what is output as row `y`. -/
def shownPixel (traits : IpImageTraits) (img : List (List UInt8)) (y x : Nat) : List Bool :=
  if y < 32768 then pixel traits.iBitsPerPixel.toNat (img.getD (y - 1) []) x
  else List.replicate traits.iBitsPerPixel.toNat (decide (traits.iBitsPerPixel ≠ 1))

/-- What is output as row `y`. -/
def Shows (traits : IpImageTraits) (img : List (List UInt8)) (x₀ w y : Nat) (row : List UInt8) :
    Prop :=
  row.length = bytesFor (traits.iBitsPerPixel.toNat * w) ∧
    ∀ x < w, pixel traits.iBitsPerPixel.toNat row x = shownPixel traits img y (x₀ + x)

/-- The row that a position is in, as an `int` has it. -/
def machineRow (y : Nat) : Int := if y < 32768 then y else (y : Int) - 65536

theorem wrapAdd_row {y : Nat} (hy : y + 1 < 65536) :
    wrapAdd (machineRow y * 0x10000) 0x10000 = machineRow (y + 1) * 0x10000 := by
  unfold machineRow
  by_cases hless : y + 1 < 32768
  · rw [if_pos (by lia), if_pos hless, wrapAdd_eq ⟨by lia, by lia⟩]
    lia
  rw [if_neg hless]
  by_cases hlast : y < 32768
  · rw [if_pos hlast]
    exact wrapAdd_over (by lia) ⟨by lia, by lia⟩
  · rw [if_neg hlast, wrapAdd_eq ⟨by lia, by lia⟩]
    lia

/-! ## What holds between the calls -/

/-- The strip and the position, while rows are to be output: `k` rows of the image are consumed and
`r` rows are out. -/
structure Live (img : List (List UInt8)) (x₀ y₀ w : Nat) (k r : Nat) (g : Inst) : Prop where
  slopes : g.hSlopeDx = 0x10000 ∧ g.hSlopeDy = 0 ∧ g.vSlopeDx = 0 ∧ g.vSlopeDy = 0x10000
  columns : g.xLeft = (x₀ : Int) * 0x10000 ∧ g.outTraits.iPixelsPerRow = w
  position : g.yLeft = machineRow (y₀ + r) * 0x10000 ∧ g.yRight = g.yLeft
  first : (k = 0 → g.stripLoaded = 0) ∧ (1 ≤ k → 2 ≤ g.stripLoaded)
  initial : g.stripLoaded < 3 → g.stripIndexYTop = 0 ∧ g.stripYTop = 0
  reach : 1 ≤ k → (k : Int) + 1 ≤ g.stripYTop + g.stripLoaded
  exact : 1 ≤ k → k < img.length → g.stripYTop + g.stripLoaded = k + 1
  bottom : g.stripYBottom = g.stripYTop + g.stripLoaded - 1
  top : 0 ≤ g.stripYTop ∧ g.stripYTop ≤ y₀ + r
  content : ∀ j, 0 ≤ j → j < g.stripLoaded → g.stripYTop + j ≤ k →
    g.pStrip ((g.stripIndexYTop + j) % 3) = stripRow g (img.getD (g.stripYTop + j - 1).toNat [])

structure Cropping (traits : IpImageTraits) (img : List (List UInt8)) (x₀ y₀ w : Nat) (k : Nat)
    (outs : List (List UInt8)) (g : Inst) : Prop where
  sent : outs.length = g.dwRowsSent.toNat
  shown : ∀ r row, outs[r]? = some row → Shows traits img x₀ w (y₀ + r) row
  live : ¬ allSent g → Live img x₀ y₀ w k outs.length g

section Live

variable {traits : IpImageTraits} {img : List (List UInt8)} {x₀ y₀ w h k r : Nat} {g : Inst}

theorem Live.needMore_iff (hl : Live img x₀ y₀ w k r g) :
    needMore g ↔ g.stripYBottom ≤ machineRow (y₀ + r) := by
  rw [needMore, hl.position.2, or_self, hl.position.1, Int.mul_ediv_cancel _ (by decide)]

theorem machineRow_le (y : Nat) : machineRow y ≤ y := by
  unfold machineRow
  split <;> omega

theorem Live.useInput (hl : Live img x₀ y₀ w k r g) (input : Option (List UInt8)) :
    Live img x₀ y₀ w k r (useInput g input) := { hl with }

theorem stripRow_congr {g' : Inst} (htraits : g'.inTraits = g.inTraits)
    (hbytes : g'.stripBytesPerRow = g.stripBytesPerRow) : stripRow g' = stripRow g := by
  funext buf
  rw [stripRow, stripRow, htraits, hbytes]

theorem Live.firstRow (hl : Live img x₀ y₀ w 0 r g) (input : Option (List UInt8)) {bytes : List UInt8}
    (hbytes : bytes = stripRow g (img.getD 0 [])) :
    Live img x₀ y₀ w 1 r (filled g input bytes) := by
  have hzero := hl.first.1 rfl
  obtain ⟨hindex, htop⟩ := hl.initial (by lia)
  have hbottom := hl.bottom
  have hone : (countLoaded (putRow g g.stripLoaded bytes)).stripLoaded = 1 :=
    show g.stripLoaded + 1 = 1 by lia
  rw [filled, doubled_first hone]
  refine Live.useInput ?_ input
  -- the instance is named, since its fields are deeply nested updates
  generalize hg' : countLoaded (putRow (countLoaded (putRow g g.stripLoaded bytes)) 1
    ((countLoaded (putRow g g.stripLoaded bytes)).pStrip 0)) = g'
  have hslopes : g'.hSlopeDx = g.hSlopeDx ∧ g'.hSlopeDy = g.hSlopeDy ∧ g'.vSlopeDx = g.vSlopeDx ∧
      g'.vSlopeDy = g.vSlopeDy := by
    rw [← hg']
    simp only [countLoaded, putRow, and_self]
  have hplace : g'.xLeft = g.xLeft ∧ g'.outTraits = g.outTraits ∧ g'.yLeft = g.yLeft ∧
      g'.yRight = g.yRight := by
    rw [← hg']
    simp only [countLoaded, putRow, and_self]
  have hstrip : g'.stripIndexYTop = g.stripIndexYTop ∧ g'.stripYTop = g.stripYTop ∧
      g'.stripYBottom = g.stripYBottom + 1 + 1 ∧ g'.stripLoaded = g.stripLoaded + 1 + 1 := by
    rw [← hg']
    simp only [countLoaded, putRow, and_self]
  have hsizes : g'.inTraits = g.inTraits ∧ g'.stripBytesPerRow = g.stripBytesPerRow := by
    rw [← hg']
    simp only [countLoaded, putRow, and_self]
  have hrow : stripRow g' (img.getD 0 []) = bytes := by
    rw [hbytes, stripRow_congr hsizes.1 hsizes.2]
  have hcontent : g'.pStrip = Function.update (Function.update g.pStrip g.stripLoaded bytes) 1
      (Function.update g.pStrip g.stripLoaded bytes 0) := by
    rw [← hg']
    simp only [countLoaded, putRow]
  obtain ⟨hdx, hdy, hvx, hvy⟩ := hslopes
  obtain ⟨hx, hout, hleft, hright⟩ := hplace
  obtain ⟨hindex', htop', hbottom', hloaded'⟩ := hstrip
  constructor
  · rw [hdx, hdy, hvx, hvy]
    exact hl.slopes
  · rw [hx, hout]
    exact hl.columns
  · rw [hleft, hright]
    exact hl.position
  · exact ⟨(by rintro ⟨⟩), fun _ => by lia⟩
  · rw [hindex', htop']
    exact fun _ => ⟨hindex, htop⟩
  · intro _
    lia
  · intro _ _
    lia
  · lia
  · rw [htop']
    exact hl.top
  · intro j hj hless _
    rw [hcontent, hindex', hindex, htop', htop, hzero, Function.update_self,
      show (0 + j) % 3 = j by lia, show (0 + j - 1).toNat = 0 by lia, hrow]
    rcases (show j = 0 ∨ j = 1 by lia) with rfl | rfl
    · rw [Function.update_of_ne (by decide), Function.update_self]
    · rw [Function.update_self]

theorem Live.oneMore (hl : Live img x₀ y₀ w k r g) (hpos : 1 ≤ k) (hfill : g.stripLoaded < 3)
    {k' : Nat} (hk : k' = k ∧ img.length ≤ k ∨ k' = k + 1 ∧ k < img.length)
    {bytes : List UInt8} (hbytes : k' = k + 1 → bytes = stripRow g (img.getD k [])) :
    Live img x₀ y₀ w k' r (countLoaded (putRow g g.stripLoaded bytes)) := by
  obtain ⟨hindex, htop⟩ := hl.initial hfill
  have hreach := hl.reach hpos
  have htwo := hl.first.2 hpos
  have hk' : k ≤ k' ∧ k' ≤ k + 1 := by
    rcases hk with ⟨rfl, -⟩ | ⟨rfl, -⟩
    · exact ⟨Nat.le_refl _, Nat.le_succ _⟩
    · exact ⟨Nat.le_succ _, Nat.le_refl _⟩
  have hloaded : (countLoaded (putRow g g.stripLoaded bytes)).stripLoaded = g.stripLoaded + 1 := rfl
  rw [htop, Int.zero_add] at hreach
  have hroom : (k' : Int) + 1 ≤ g.stripLoaded + 1 := by
    have := Int.ofNat_le.mpr hk'.2
    clear hk hbytes
    lia
  refine ⟨hl.slopes, hl.columns, hl.position,
    ⟨fun hzero => absurd (hzero ▸ hk'.1) (Nat.not_le.mpr hpos), fun _ => hloaded ▸ ?_⟩,
    fun _ => ⟨hindex, htop⟩, fun _ => ?_, fun _ hmore => ?_, ?_, hl.top, ?_⟩
  · exact Int.le_add_one htwo
  · show (k' : Int) + 1 ≤ g.stripYTop + (g.stripLoaded + 1)
    rwa [htop, Int.zero_add]
  · show g.stripYTop + (g.stripLoaded + 1) = k' + 1
    rcases hk with ⟨-, hend⟩ | ⟨heq, hless⟩
    · exact absurd (Nat.lt_of_le_of_lt hk'.1 hmore) (Nat.not_lt.mpr hend)
    · rw [← Int.add_assoc, hl.exact hpos hless, heq, Nat.cast_succ]
  · show g.stripYBottom + 1 = g.stripYTop + (g.stripLoaded + 1) - 1
    rw [hl.bottom, Int.sub_add_cancel, ← Int.add_assoc, Int.add_sub_cancel]
  · -- a copy that is loaded past the image is not one of the rows that count
    intro j hj hless hle
    have hle' : g.stripYTop + j ≤ k' := hle
    rw [hloaded] at hless
    show Function.update g.pStrip g.stripLoaded bytes ((g.stripIndexYTop + j) % 3)
      = stripRow g (img.getD (g.stripYTop + j - 1).toNat [])
    rw [htop, Int.zero_add] at hle' ⊢
    have hmod : (g.stripIndexYTop + j) % 3 = j := by
      rw [hindex, Int.zero_add]
      exact Int.emod_eq_of_lt hj (Int.lt_of_lt_of_le hless (Int.add_one_le_of_lt hfill))
    by_cases hlast : j = g.stripLoaded
    · have hlast' : (k' : Int) = k + 1 := by
        clear hk hbytes hless hmod
        lia
      have hplace : (j - 1).toNat = k := by
        rw [show j = k + 1 by clear hk hbytes hmod; lia, Int.add_sub_cancel, Int.toNat_natCast]
      rw [hmod, hlast, Function.update_self, ← hlast, hplace, hbytes (by exact_mod_cast hlast')]
    · have hbelow : j < g.stripLoaded := lt_of_le_of_ne (Int.le_of_lt_add_one hless) hlast
      have hold := hl.content j hj hbelow (by rw [htop, Int.zero_add]; clear hk hbytes hmod; lia)
      rw [hmod, htop, Int.zero_add] at hold
      rw [hmod, Function.update_of_ne hlast, hold]

theorem slot_next (t j : Int) : ((t + 1) % 3 + j) % 3 = (t + (j + 1)) % 3 := by
  rw [Int.emod_add_emod, Int.add_assoc, Int.add_comm 1 j]

theorem slot_last {t : Int} (ht : 0 ≤ t ∧ t < 3) : (t + (2 + 1)) % 3 = t := by
  rw [show (2 : Int) + 1 = 3 from rfl, Int.add_emod_right, Int.emod_eq_of_lt ht.1 ht.2]

theorem slot_ne {t j : Int} (hj : 0 ≤ j ∧ j < 2) : (t + (j + 1)) % 3 ≠ t := by
  omega

theorem Live.scroll (hl : Live img x₀ y₀ w k r g) (hrows : g.stripRows = 3)
    (hfull : g.stripLoaded = 3) (hindex : 0 ≤ g.stripIndexYTop ∧ g.stripIndexYTop < 3)
    (hmore : needMore g) (hk : k < img.length) (hpos : 1 ≤ k) {bytes : List UInt8}
    (hbytes : bytes = stripRow g (img.getD k [])) :
    Live img x₀ y₀ w (k + 1) r (scrolled (putRow g g.stripIndexYTop bytes)) := by
  have hbottom := hl.bottom
  have hexact := hl.exact hpos hk
  have htop := hl.top
  have hbelow := hl.needMore_iff.mp hmore
  have hle := machineRow_le (y₀ + r)
  refine ⟨hl.slopes, hl.columns, hl.position, ⟨nofun, fun _ => ?_⟩, fun hless => ?_,
    fun _ => ?_, fun _ _ => ?_, ?_, ⟨?_, ?_⟩, ?_⟩
  · show 2 ≤ g.stripLoaded
    lia
  · exact absurd (show g.stripLoaded < 3 from hless) (by lia)
  · show ((k + 1 : Nat) : Int) + 1 ≤ g.stripYTop + 1 + g.stripLoaded
    lia
  · show g.stripYTop + 1 + g.stripLoaded = ((k + 1 : Nat) : Int) + 1
    lia
  · show g.stripYBottom + 1 = g.stripYTop + 1 + g.stripLoaded - 1
    lia
  · show 0 ≤ g.stripYTop + 1
    lia
  · show g.stripYTop + 1 ≤ y₀ + r
    push_cast at hle
    lia
  · intro j hj hless _
    have hless' : j < g.stripLoaded := hless
    show Function.update g.pStrip g.stripIndexYTop bytes
        (((g.stripIndexYTop + 1) % g.stripRows + j) % 3)
      = stripRow g (img.getD (g.stripYTop + 1 + j - 1).toNat [])
    rw [hrows, slot_next]
    have hplace : g.stripYTop + 1 + j - 1 = g.stripYTop + (j + 1) - 1 := by
      rw [Int.add_assoc, Int.add_comm 1 j]
    rw [hplace]
    -- the new row is the last one, the others have moved up
    by_cases hlast : j = 2
    · have hrow : g.stripYTop + (2 + 1) - 1 = k := by
        rw [hfull] at hexact
        rw [show (2 : Int) + 1 = 3 from rfl, hexact, Int.add_sub_cancel]
      rw [hlast, slot_last hindex, Function.update_self, hbytes, hrow, Int.toNat_natCast]
    · have hj' : j + 1 < 3 := by
        rw [hfull] at hless'
        clear hbottom hexact hbelow hle htop
        lia
      have hold := hl.content (j + 1) (Int.le_add_one hj) (hfull ▸ hj')
        (by rw [hfull] at hexact; clear hbottom hbelow hle htop; lia)
      rw [Function.update_of_ne (slot_ne ⟨hj, Int.lt_of_add_lt_add_right hj'⟩), hold]

theorem Live.sentRow (hl : Live img x₀ y₀ w k r g) (hx : x₀ ≤ 32767) (hy : y₀ + r + 1 < 65536) :
    Live img x₀ y₀ w k (r + 1) (sentRow g) := by
  obtain ⟨hdx, hdy, hvx, hvy⟩ := hl.slopes
  have hnext : wrapAdd g.yLeft g.vSlopeDy = machineRow (y₀ + (r + 1)) * 0x10000 := by
    rw [hl.position.1, hvy]
    exact wrapAdd_row hy
  have htop := hl.top
  refine { hl with columns := ⟨?_, hl.columns.2⟩, position := ⟨hnext, ?_⟩, top := ⟨htop.1, ?_⟩ }
  · show wrapAdd g.xLeft g.vSlopeDx = x₀ * 0x10000
    rw [hl.columns.1, hvx, wrapAdd_eq ⟨by lia, by lia⟩, Int.add_zero]
  · show wrapAdd g.yRight g.vSlopeDy = wrapAdd g.yLeft g.vSlopeDy
    rw [hl.position.2]
  · show g.stripYTop ≤ y₀ + ((r + 1 : Nat) : Int)
    push_cast
    lia

end Live

/-! ## Call by call -/

structure Within (traits : IpImageTraits) (img : List (List UInt8)) (x₀ y₀ w h : Nat) : Prop where
  rows : ∀ buf ∈ img, bytesPerRow traits ≤ buf.length
  columns : (x₀ : Int) + w ≤ traits.iPixelsPerRow
  inside : y₀ + h ≤ img.length
  right : x₀ + w ≤ 32767
  below : y₀ + h < 65536

section Crop

variable {traits : IpImageTraits} {img : List (List UInt8)} {x₀ y₀ w h k : Nat}
  {outs : List (List UInt8)} {g g' : Inst}

section Shows

variable {r : Nat} (hl : Live img x₀ y₀ w k r g) (hi : Within traits img x₀ y₀ w h)
  (hg : Sound traits h 3 g)

include hl hi hg

theorem Live.strip_row (hfull : g.stripLoaded = 3) (hk : k ≤ img.length) (hr : r < h)
    (hmore : ((y₀ + r : Nat) : Int) < g.stripYBottom) {yint : Int}
    (hyint : ((y₀ + r : Nat) : Int) - g.stripYTop = yint) :
    (0 ≤ yint ∧ yint < g.stripRows - 1) ∧
      g.pStrip (rowIndex g yint) = stripRow g (img.getD (y₀ + r - 1) []) := by
  have hinside := hi.inside
  have htop := hl.top
  have hbottom := hl.bottom
  have hrows := hg.stripRows
  have hindex := hg.top
  push_cast at hmore hyint
  have hpos : 1 ≤ k := by
    by_contra hzero
    have hempty := hl.first.1 (by lia)
    lia
  -- the rows up to this one have been loaded, for the strip ends below it
  have hpast : y₀ + r ≤ k := by
    by_cases hlast : k < img.length
    · have hexact := hl.exact hpos hlast
      lia
    · lia
  have hy : 0 ≤ yint ∧ yint < g.stripRows - 1 := by lia
  have hplace : rowIndex g yint = (g.stripIndexYTop + yint) % 3 := by
    unfold rowIndex
    split <;> lia
  refine ⟨hy, ?_⟩
  rw [hplace, hl.content yint hy.1 (by lia) (by lia)]
  congr 2
  lia

/-- **The row that is output.** -/
theorem Live.shows (hfull : g.stripLoaded = 3) (hk : k ≤ img.length) (hr : r < h)
    (hmore : ¬ needMore g) {pxs : List (List UInt8)}
    (hpxs : outputPixels g g.outTraits.iPixelsPerRow.toNat g.xLeft g.yLeft = .ok pxs) :
    Shows traits img x₀ w (y₀ + r) (packRow g pxs) := by
  have hbelow := hi.below
  have hinside := hi.inside
  have htop := hl.top
  rw [hl.needMore_iff, Int.not_le] at hmore
  rw [hl.columns.1, hl.columns.2, hl.position.1, Int.toNat_natCast] at hpxs
  have hrun (f : Nat → List UInt8) (hycur : IsInt (machineRow (y₀ + r) * 0x10000))
      (hf : ∀ i < x₀ + w, outputPixel g (i * 0x10000) (machineRow (y₀ + r) * 0x10000) = .ok (f i)) :
      pxs = (List.range w).map fun i => f (x₀ + i) := by
    have hall := outputPixels_upright hl.slopes.1 hl.slopes.2.1 hycur w hi.right f hf
    rw [hpxs] at hall
    exact Except.ok.inj hall
  by_cases hreach : y₀ + r < 32768
  · rw [machineRow, if_pos hreach] at hmore hrun
    obtain ⟨hy, hrow⟩ := hl.strip_row hi hg hfull hk hr hmore rfl
    have hpixels := hrun (pixelOf g.bytesPerPixel.toNat (stripRow g (img.getD (y₀ + r - 1) [])))
      ⟨by lia, by lia⟩ fun i hless => by
        have hcolumns := hi.columns
        rw [← hrow]
        exact outputPixel_upright hg.toSized hg.top (by lia) hy
    have hbuf : bytesPerRow traits ≤ (img.getD (y₀ + r - 1) []).length := by
      refine hi.rows _ ?_
      rw [List.getD_eq_getElem _ _ (by lia)]
      exact List.getElem_mem _
    rw [hpixels]
    refine ⟨packRow_length (fun _ => pixelOf_length _ _ _) hg.toSized, fun x hx => ?_⟩
    rw [shownPixel, if_pos hreach]
    exact packRow_pixel hg.toSized hbuf hi.columns hx
  · -- the position has wrapped, and a negative one lies outside of the page
    rw [machineRow, if_neg hreach] at hrun
    have hpixels := hrun (fun _ => List.replicate g.bytesPerPixel.toNat 255)
      ⟨by lia, by lia⟩ fun i _ => by
        refine if_neg fun hin => ?_
        have hup := hin.1.1
        rw [Int.mul_ediv_cancel _ (by decide)] at hup
        lia
    rw [hpixels]
    refine ⟨packRow_length (fun _ => List.length_replicate) hg.toSized, fun x hx => ?_⟩
    rw [shownPixel, if_neg hreach]
    exact packRow_white hg.toSized hx

end Shows

theorem Live.finished {out : Option (List UInt8)} (hl : Live img x₀ y₀ w k outs.length g)
    (hi : Within traits img x₀ y₀ w h) (hg : Sound traits h 3 g) (hfull : g.stripLoaded = 3)
    (hk : k ≤ img.length) (hall : ¬ allSent g) (hsent : outs.length = g.dwRowsSent.toNat)
    (hshown : ∀ r row, outs[r]? = some row → Shows traits img x₀ w (y₀ + r) row)
    (hf : Finished g out g') : Cropping traits img x₀ y₀ w k (outs ++ out.toList) g' := by
  have hless : outs.length < h := by
    have hleft := mt (allSent_iff hg.toSized).mpr hall
    lia
  have hbelow := hi.below
  have hright := hi.right
  cases hf with
  | discards hdone => exact absurd hdone hall
  | sends _ hmore hpxs =>
    have hrow := hl.shows hi hg hfull hk hless hmore hpxs
    refine ⟨?_, fun r row hat => ?_, fun _ => ?_⟩
    · rw [sentRow_sent hg, ← hsent]
      exact List.length_append
    · rcases Nat.lt_trichotomy r outs.length with hr | rfl | hr
      · rw [Option.toList_some, List.getElem?_append_left hr] at hat
        exact hshown r row hat
      · rw [Option.toList_some, List.getElem?_concat_length] at hat
        exact Option.some.inj hat ▸ hrow
      · rw [Option.toList_some, List.getElem?_eq_none (by
          rw [List.length_append, List.length_singleton]; lia)] at hat
        cases hat
    · rw [Option.toList_some, List.length_append, List.length_singleton]
      exact hl.sentRow (by lia) (by lia)
  | waits =>
    rw [Option.toList_none, List.append_nil]
    exact ⟨hsent, hshown, fun _ => hl⟩

theorem Cropping.over {k' : Nat} {input out : Option (List UInt8)}
    (hI : Cropping traits img x₀ y₀ w k outs g) (hg : Sound traits h 3 g) (hall : allSent g)
    (hc : Call g input out g') : Cropping traits img x₀ y₀ w k' (outs ++ out.toList) g' := by
  have hg' := hc.sound hg
  have hsent' := hg'.sent
  obtain ⟨hcount, -⟩ := hc.counts hg
  have hmin := (allSent_iff hg.toSized).mp hall
  have hnone : out.toList = [] := List.length_eq_zero_iff.mp (by lia)
  rw [hnone, List.length_nil, Nat.add_zero] at hcount
  rw [hnone, List.append_nil]
  refine ⟨by rw [hI.sent, hcount], hI.shown, fun hnot => absurd ?_ hnot⟩
  rw [allSent_iff hg'.toSized, hcount]
  exact hmin

theorem filled_later {input : Option (List UInt8)} {bytes : List UInt8} (hne : g.stripLoaded ≠ 0) :
    filled g input bytes = useInput (countLoaded (putRow g g.stripLoaded bytes)) input := by
  rw [filled, doubled_later (show g.stripLoaded + 1 ≠ 1 by omega)]

theorem Cropping.filled {k' : Nat} {input : Option (List UInt8)} {bytes : List UInt8}
    (hI : Cropping traits img x₀ y₀ w k outs g)
    (hl : Live img x₀ y₀ w k' outs.length (filled g input bytes)) :
    Cropping traits img x₀ y₀ w k' (outs ++ (none : Option (List UInt8)).toList)
      (filled g input bytes) := by
  rw [Option.toList_none, List.append_nil]
  exact ⟨by rw [filled_sent, hI.sent], hI.shown, fun _ => hl⟩

/-- **Step lemma.** The calls with the rows of the image. -/
theorem keeps_cropping (hi : Within traits img x₀ y₀ w h) (k : Nat) {buf : List UInt8}
    (hat : img[k]? = some buf) :
    Keeps traits h 3 (Cropping traits img x₀ y₀ w) k (some buf) := by
  intro outs g out g' hg hI _ hc
  by_cases hall : allSent g
  · exact ⟨fun _ => hI.over hg hall hc, fun _ => hI.over hg hall hc⟩
  have hl := hI.live hall
  have hrows := hg.stripRows
  have hrange := hg.loaded
  have hless : k < img.length := (List.getElem?_eq_some_iff.mp hat).1
  have hget : img.getD k [] = buf := by
    rw [List.getD_eq_getElem?_getD, hat]
    rfl
  cases hc with
  | fills hfill hrow =>
    obtain rfl := Except.ok.inj hrow
    refine ⟨fun _ => hI.filled ?_, fun hnot => absurd ⟨rfl, .inl hfill⟩ hnot⟩
    rcases Nat.eq_zero_or_pos k with rfl | hpos
    · exact hl.firstRow (some buf) (by rw [hget])
    · have htwo := hl.first.2 hpos
      rw [filled_later (by lia)]
      exact (hl.oneMore hpos (by lia) (.inr ⟨rfl, hless⟩) fun _ => by rw [hget]).useInput _
  | loads hfull hmore hf =>
    refine ⟨fun _ => ?_, fun hnot => absurd ⟨rfl, .inr hmore⟩ hnot⟩
    have hpos : 1 ≤ k := by
      by_contra hzero
      have hempty := hl.first.1 (by lia)
      lia
    have hscroll := (hl.scroll hrows (by lia) hg.top hmore hless hpos
      (show nextRow g (some buf) = _ by rw [hget]; rfl)).useInput (some buf)
    exact hscroll.finished hi (scrolled_sound hg (by lia) _) (show g.stripLoaded = 3 by lia)
      hless hall hI.sent hI.shown hf
  | goesOn hfull hmore hf =>
    refine ⟨fun htakes => absurd htakes.2 ?_, fun _ => ?_⟩
    · rintro (hfill | hneed)
      · lia
      · exact hmore hneed
    · exact hl.finished hi hg (by lia) (Nat.le_of_lt hless) hall hI.sent hI.shown hf

/-- **Step lemma.** The calls that flush find all rows of the rectangle in the strip. -/
theorem keeps_cropping_flush (hi : Within traits img x₀ y₀ w h) (hpos : 0 < img.length) :
    Keeps traits h 3 (Cropping traits img x₀ y₀ w) img.length none := by
  intro outs g out g' hg hI hleft hc
  refine ⟨nofun, fun _ => ?_⟩
  have hall := hleft rfl
  have hl := hI.live hall
  have hrows := hg.stripRows
  have hrange := hg.loaded
  have hinside := hi.inside
  have hless : outs.length < h := by
    have hmore := mt (allSent_iff hg.toSized).mpr hall
    have hsent := hI.sent
    lia
  cases hc with
  | fills hfill hrow =>
    refine hI.filled ?_
    have htwo := hl.first.2 hpos
    rw [filled_later (by lia)]
    exact (hl.oneMore hpos (by lia) (.inl ⟨rfl, Nat.le_refl _⟩) (by lia)).useInput _
  | loads hfull hmore hf =>
    -- the strip reaches below the rectangle by now
    have hbelow := hl.needMore_iff.mp hmore
    have hle := machineRow_le (y₀ + outs.length)
    have hbottom := hl.bottom
    have hreach := hl.reach hpos
    push_cast at hle
    lia
  | goesOn hfull hmore hf =>
    exact hl.finished hi hg (by lia) (Nat.le_refl _) hall hI.sent hI.shown hf

end Crop

/-! ## Whole jobs -/

section Jobs

variable {traits : IpImageTraits} {spec : XformSpec} {img : List (List UInt8)} {x₀ y₀ w h : Nat}
  {g : Inst}

theorem highHalf_lt (d : UInt32) : highHalf d ≤ 32767 := by
  have hint := (isInt_ofDword d).2
  unfold highHalf
  lia

theorem lowHalf_lt (d : UInt32) : lowHalf d < 65536 := Int.emod_lt_of_pos _ (by decide)

theorem Upright.opened (hu : Upright spec x₀ y₀ w h) (hg : Opened traits spec g) :
    g.iOutWidth = w ∧ g.iOutHeight = h ∧ g.stripRows = 3 ∧ rowsToFill spec = 2 ∧
      g.hSlopeDx = 0x10000 ∧ g.hSlopeDy = 0 ∧ g.vSlopeDx = 0 ∧ g.vSlopeDy = 0x10000 := by
  obtain ⟨hw, hh⟩ := hu.nonempty
  obtain ⟨hxUL, hyUL⟩ := hu.upperLeft
  obtain ⟨hxUR, hyUR⟩ := hu.upperRight
  obtain ⟨hxLL, hyLL⟩ := hu.lowerLeft
  obtain ⟨wsq, -, -, hwidth⟩ := hg.width
  obtain ⟨hsq, -, -, hheight⟩ := hg.height
  rw [hu.outputSize.1, outLength, if_neg (by lia)] at hwidth
  rw [hu.outputSize.2, outLength, if_neg (by lia)] at hheight
  have hfill : rowsToFill spec = 2 := by
    unfold rowsToFill
    rw [hyUL, hyUR, hyLL]
    dsimp only
    rw [if_neg (by lia)]
    lia
  refine ⟨hwidth, hheight, by rw [hg.rows, hfill]; rfl, hfill, ?_, ?_, ?_, ?_⟩
  · rw [hg.hSlopeDx, hwidth, hxUR, hxUL, add_sub_cancel_left, Int.mul_tdiv_cancel_left _ (by lia)]
  · rw [hg.hSlopeDy, hyUR, hyUL, Int.sub_self, Int.zero_mul, Int.zero_tdiv]
  · rw [hg.vSlopeDx, hxLL, hxUL, Int.sub_self, Int.zero_mul, Int.zero_tdiv]
  · rw [hg.vSlopeDy, hheight, hyLL, hyUL, add_sub_cancel_left,
      Int.mul_tdiv_cancel_left _ (by lia)]

theorem Upright.cropping (hu : Upright spec x₀ y₀ w h) (hg : Opened traits spec g) :
    Cropping traits img x₀ y₀ w 0 [] g := by
  obtain ⟨hwidth, -, hrows, -, hslopes⟩ := hu.opened hg
  obtain ⟨hindex, htop, hbottom, hloaded⟩ := hg.strip
  have hposition : g.yLeft = machineRow (y₀ + 0) * 0x10000 := by
    have hint := hg.yLeft.2
    rw [hg.yLeft.1, hu.upperLeft.2] at hint ⊢
    rw [machineRow, Nat.add_zero, if_pos (by have := hint.2; lia)]
  refine ⟨by rw [hg.sent]; rfl, nofun, fun _ => ⟨hslopes, ⟨?_, ?_⟩, ⟨hposition, ?_⟩,
    ⟨fun _ => hloaded, nofun⟩, fun _ => ⟨hindex, htop⟩, nofun, nofun, by lia, ?_, ?_⟩⟩
  · rw [hg.xLeft, hu.upperLeft.1]
  · rw [hg.outTraits]
    exact hwidth
  · rw [hg.yLeft.1, hg.yRight.1, hu.upperLeft.2, hu.upperRight.2]
  · rw [htop]
    exact ⟨Int.le_refl 0, by lia⟩
  · intro j hj hless
    lia

theorem showsCrop_iff {outs : List (List UInt8)} (hlen : outs.length = h)
    (hshown : ∀ r row, outs[r]? = some row → Shows traits img x₀ w (y₀ + r) row) :
    ShowsCrop traits img x₀ y₀ w h outs ↔ Repeats traits img x₀ y₀ w h := by
  have hrow {r x : Nat} (hr : r < h) (hx : x < w) :
      pixel traits.iBitsPerPixel.toNat (outs.getD r []) x
        = shownPixel traits img (y₀ + r) (x₀ + x) := by
    have hat : outs[r]? = some (outs.getD r []) := by
      rw [List.getD_eq_getElem _ _ (by omega)]
      exact List.getElem?_eq_getElem (by omega)
    exact (hshown r _ hat).2 x hx
  -- row 0 is loaded twice, and from row 32768 on the output is white
  have hpixel {r x : Nat} : (shownPixel traits img (y₀ + r) (x₀ + x)
        = pixel traits.iBitsPerPixel.toNat (img.getD (y₀ + r) []) (x₀ + x) ↔
      (1 ≤ y₀ + r → y₀ + r < 32768 → pixel traits.iBitsPerPixel.toNat (img.getD (y₀ + r) []) (x₀ + x)
        = pixel traits.iBitsPerPixel.toNat (img.getD (y₀ + r - 1) []) (x₀ + x)) ∧
      (32768 ≤ y₀ + r → pixel traits.iBitsPerPixel.toNat (img.getD (y₀ + r) []) (x₀ + x)
        = List.replicate traits.iBitsPerPixel.toNat (decide (traits.iBitsPerPixel ≠ 1)))) := by
    rw [shownPixel]
    by_cases hreach : y₀ + r < 32768
    · rw [if_pos hreach, and_iff_left fun hbelow => absurd hbelow (Nat.not_le.mpr hreach)]
      rcases Nat.eq_zero_or_pos (y₀ + r) with hzero | hpos
      · rw [hzero]
        exact iff_of_true rfl fun hone => absurd hone (by decide)
      · rw [eq_comm]
        exact ⟨fun heq _ _ => heq, fun heq => heq hpos hreach⟩
    · rw [if_neg hreach, and_iff_right fun _ hless => absurd hless hreach, eq_comm]
      exact ⟨fun heq _ => heq, fun heq => heq (Nat.not_lt.mp hreach)⟩
  constructor
  · intro hcrop r hr x hx
    rw [← hpixel, ← hrow hr hx]
    exact hcrop.pixels r hr x hx
  · intro hrepeats
    refine ⟨hlen, fun row hmem => ?_, fun r hr x hx => ?_⟩
    · obtain ⟨r, hat⟩ := List.getElem?_of_mem hmem
      exact (hshown r row hat).1
    · rw [hrow hr hx]
      exact hpixel.mpr (hrepeats r hr x hx)

theorem Upright.within (hu : Upright spec x₀ y₀ w h)
    (hcolumns : (x₀ : Int) + w ≤ traits.iPixelsPerRow) (hinside : y₀ + h ≤ img.length)
    (hlen : ∀ buf ∈ img, bytesPerRow traits ≤ buf.length) : Within traits img x₀ y₀ w h := by
  have hright := highHalf_lt spec.upperRight
  have hbelow := lowHalf_lt spec.lowerLeft
  rw [hu.upperRight.1] at hright
  rw [hu.lowerLeft.2] at hbelow
  exact ⟨hlen, hcolumns, hinside, by omega, by omega⟩

/-- **The calls on an image** output what the strip shows, if it can be filled. -/
theorem Upright.run (hu : Upright spec x₀ y₀ w h) (hg : Opened traits spec g)
    (hdepth : traits.iBitsPerPixel = 1 ∨ traits.iBitsPerPixel = 8 ∨ traits.iBitsPerPixel = 24)
    (hi : Within traits img x₀ y₀ w h) (hfills : traits.iBitsPerPixel = 1 → 2 ≤ img.length)
    (calls : Nat) :
    Gives (fun cs => EndsDone cs ∧ (rowsOut cs).length = h ∧
        ∀ r row, (rowsOut cs)[r]? = some row → Shows traits img x₀ w (y₀ + r) row)
        (rotateImage calls g img) ∧ (h + 32772 < calls → Safe (rotateImage calls g img)) := by
  obtain ⟨-, hheight, hrows, -, -⟩ := hu.opened hg
  have hsound := hg.sound hdepth
  rw [hheight, hrows] at hsound
  have hpos : 0 < img.length := by
    have hinside := hi.inside
    have hh := hu.nonempty.2
    lia
  have hrow : ∀ outs g', Sound traits h 3 g' → Cropping traits img x₀ y₀ w img.length outs g' →
      ¬ allSent g' → g'.stripLoaded < g'.stripRows → ∃ bytes, initialRow g' none = .ok bytes := by
    intro outs g' hg' hI hall hless
    have hl := hI.live hall
    have hreach := hl.reach hpos
    have htwo := hl.first.2 hpos
    rw [hg'.stripRows] at hless
    have htop := (hl.initial hless).2
    have hne : traits.iBitsPerPixel ≠ 1 := by
      intro hbilevel
      have henough := hfills hbilevel
      lia
    exact ⟨_, initialRow_flush hg' hne hless (by lia)⟩
  obtain ⟨hgives, hsafe⟩ := rotateImage_run hi.rows (fun k buf hat => keeps_cropping hi k hat)
    (keeps_cropping_flush hi hpos) hrow hsound (hu.cropping hg) calls
  constructor
  · refine hgives.mono fun cs hcs => ?_
    obtain ⟨hends, g', hg', hall, hI⟩ := hcs
    have hsent := hg'.sent
    have hall' := (allSent_iff hg'.toSized).mp hall
    exact ⟨hends, by rw [hI.sent]; lia, hI.shown⟩
  · intro hcalls
    exact hsafe (by lia)

/-- **Rotation by zero** is a crop exactly if a bilevel image has two rows and the rows of the
rectangle repeat those before them. -/
theorem rotateZero_iff (hstart : start traits spec = .ok g)
    (hdepth : traits.iBitsPerPixel = 1 ∨ traits.iBitsPerPixel = 8 ∨ traits.iBitsPerPixel = 24)
    (hu : Upright spec x₀ y₀ w h) (hcolumns : (x₀ : Int) + w ≤ traits.iPixelsPerRow)
    (hinside : y₀ + h ≤ img.length) (hlen : ∀ buf ∈ img, bytesPerRow traits ≤ buf.length) :
    Crops traits g img x₀ y₀ w h ↔
      (traits.iBitsPerPixel = 1 → 2 ≤ img.length) ∧ Repeats traits img x₀ y₀ w h := by
  have hg := start_opened hstart
  have hi := hu.within hcolumns hinside hlen
  obtain ⟨-, hheight, -, hfill, -⟩ := hu.opened hg
  constructor
  · rintro ⟨calls, cs, hrun, hends, hcrop⟩
    have hfills : traits.iBitsPerPixel = 1 → 2 ≤ img.length := by
      intro hbilevel
      by_contra hshort
      refine not_completes hg hbilevel hlen (by omega) ⟨calls, cs, hrun, hends, ?_⟩
      rw [hcrop.rows, hheight]
    obtain ⟨-, hcount, hshown⟩ := (hu.run hg hdepth hi hfills calls).1 cs hrun
    exact ⟨hfills, (showsCrop_iff hcount hshown).mp hcrop⟩
  · rintro ⟨hfills, hrepeats⟩
    obtain ⟨hgives, hsafe⟩ := hu.run hg hdepth hi hfills (h + 32773)
    obtain ⟨cs, hcs⟩ := hsafe (Nat.lt_succ_self _)
    obtain ⟨hends, hcount, hshown⟩ := hgives cs hcs
    exact ⟨_, cs, hcs, hends, (showsCrop_iff hcount hshown).mpr hrepeats⟩

def secondRow : XformSpec := ⟨1, 0x10001, 2, 0x10001, 1⟩

theorem secondRow_opened : ∃ g, start ⟨1, 8, 1, 0, 0, 2, 0, 0⟩ secondRow = .ok g := ⟨_, rfl⟩

theorem secondRow_upright : Upright secondRow 0 1 1 1 := by
  constructor <;> decide

theorem crops_secondRow : ∃ g, start ⟨1, 8, 1, 0, 0, 2, 0, 0⟩ secondRow = .ok g ∧
    (Crops ⟨1, 8, 1, 0, 0, 2, 0, 0⟩ g [[7], [7]] 0 1 1 1 ↔ ((8 : Int) = 1 → 2 ≤ 2) ∧
      Repeats ⟨1, 8, 1, 0, 0, 2, 0, 0⟩ [[7], [7]] 0 1 1 1) :=
  ⟨_, rfl, rotateZero_iff (show start ⟨1, 8, 1, 0, 0, 2, 0, 0⟩ secondRow = .ok _ from rfl) (by decide)
    secondRow_upright (by decide) (by decide) (by decide)⟩

/-- The row before the rectangle comes out. -/
theorem row_before_shown : ¬ ∀ (traits : IpImageTraits) (spec : XformSpec) (g : Inst)
    (img : List (List UInt8)) (x₀ y₀ w h : Nat), start traits spec = .ok g →
      (traits.iBitsPerPixel = 1 ∨ traits.iBitsPerPixel = 8 ∨ traits.iBitsPerPixel = 24) →
        Upright spec x₀ y₀ w h → (x₀ : Int) + w ≤ traits.iPixelsPerRow → y₀ + h ≤ img.length →
          (∀ buf ∈ img, bytesPerRow traits ≤ buf.length) → Crops traits g img x₀ y₀ w h := by
  intro hall
  obtain ⟨g, hstart⟩ := secondRow_opened
  have hlen : ∀ buf ∈ [[(7 : UInt8)], [8]], bytesPerRow ⟨1, 8, 1, 0, 0, 2, 0, 0⟩ ≤ buf.length := by
    decide
  obtain ⟨calls, cs, hrun, -, hcrop⟩ := hall _ _ g _ 0 1 1 1 hstart (by decide) secondRow_upright
    (by decide) (by decide) hlen
  have hi := secondRow_upright.within (show ((0 : Nat) : Int) + (1 : Nat) ≤ 1 by decide) (by decide) hlen
  obtain ⟨-, hcount, hshown⟩ := (secondRow_upright.run (start_opened hstart) (by decide) hi
    (by decide) calls).1 cs hrun
  have hpixel := ((showsCrop_iff hcount hshown).mp hcrop 0 (by decide) 0 (by decide)).1
    (by decide) (by decide)
  revert hpixel
  decide

end Jobs

end Hplip.Ip.Rotate
