import Hplip.Ip.HorizScale
import Hplip.Ip.ScaleBlend
import Mathlib.Data.List.GetD

/-!
# Scaling by one

With both factors 1.0 the rounded reciprocal is one unit too large. Along the page that leaves the
newest row alone, whose weight is one already; along the row the weight of the next pixel grows.
Which images come out as they went in?
-/

namespace Hplip.Ip.HorizScale

open Scale Loop CInt

/-! ## Rows -/

section Rows

variable {horizScale : Row → Row} {fast : Bool} {k : Nat} {g : ScInst}

theorem inverse_one : inverse 0x10000 = 0x10001 := by decide

theorem positions_one (k : Nat) : (positions false 0x10000 k).pos = 0
    ∧ (positions false 0x10000 k).saved ≤ 1 ∧ 0x10001 ≤ (positions false 0x10000 k).inv := by
  induction k with
  | zero => exact ⟨rfl, Nat.zero_le 1, Int.le_of_eq rfl⟩
  | succ k ih =>
    obtain ⟨hpos, hsaved, hinv⟩ := ih
    rw [positions_succ, advance_up rfl (Nat.le_refl _), hpos, inverse_one]
    refine ⟨rfl, Nat.le_refl 1, ?_⟩
    show 0x10001 ≤ (positions false 0x10000 k).inv + (1 : Nat) * (0x10001 : Nat) - 0x10000
    omega

theorem advance_one_blend (k : Nat) :
    (advance false 0x10000 (positions false 0x10000 k)).1 = [(2, 0)] := by
  obtain ⟨hpos, -, hinv⟩ := positions_one k
  rw [advance_up rfl (Nat.le_refl _), hpos]
  show [(2, clampWeight ((positions false 0x10000 k).inv + (0 : Nat) * (inverse 0x10000 : Nat)))] = _
  rw [clampWeight, if_pos (by omega)]

theorem madeRow_newest (g : ScInst) : madeRow g (2, 0) = (g.rows 1).take g.outRowNbytes := rfl

theorem filledRows_newest (hsaved : g.nSavedRows ≤ 1) (src : Row) :
    filledRows horizScale g src 1 = horizScale src := by
  rw [filledRows]
  by_cases h0 : g.nSavedRows = 0
  · rw [if_pos h0, Function.update_self]
  · rw [if_neg h0, show g.nSavedRows = 1 by lia, Function.update_self]

theorem contoneScaleRow_fast {f : Nat} {s : Positions} (hf : f ≤ 0x10000) (hg : Agrees true f s g)
    (src : Row) : contoneScaleRow horizScale g src
      = some (List.replicate ((s.pos + f) / 0x10000) (horizScale src),
        g.at (advance true f s).2 g.rows) := by
  rw [contoneScaleRow, if_pos ⟨hg.replicates, hg.fac ▸ hf⟩, hg.pos, hg.fac, advance_fast rfl]
  simp only [ScInst.at, ← hg.saved, ← hg.inv, hg.fac]

theorem contoneScaleRow_one (hg : Reached fast 0x10000 k g) (src : Row)
    (hlen : (horizScale src).length ≤ g.outRowNbytes) :
    ∃ rows, contoneScaleRow horizScale g src
      = some ([horizScale src], g.at (advance fast 0x10000 (positions fast 0x10000 k)).2 rows) := by
  have hag := hg.agrees
  cases fast with
  | true =>
    have hlt := sound_positions true 0x10000 k
    rw [Sound, if_pos rfl] at hlt
    have hcount : ((positions true 0x10000 k).pos + 0x10000) / 0x10000 = 1 := by lia
    refine ⟨g.rows, ?_⟩
    rw [contoneScaleRow_fast (Nat.le_refl _) hag src, hcount, List.replicate_one]
  | false =>
    have hnewest : madeRow (filledInst horizScale g (positions false 0x10000 k) src) (2, 0)
        = horizScale src := by
      have hsaved : g.nSavedRows ≤ 1 := hag.saved ▸ (positions_one k).2.1
      rw [madeRow_newest, show (filledInst horizScale g (positions false 0x10000 k) src).rows 1
        = horizScale src from filledRows_newest hsaved src]
      exact List.take_of_length_le hlen
    obtain ⟨kept, hrow, -⟩ := contoneScaleRow_slow horizScale rfl (by decide) hag
      (sound_positions false 0x10000 k) src
    refine ⟨kept, ?_⟩
    rw [hrow, advance_one_blend, List.map_singleton, hnewest]

theorem scaleConvert_one (hg : Reached fast 0x10000 k g) (hheld : g.nMoreHeldOutRows = 0)
    (src : Row) (hlen : (horizScale src).length ≤ g.outRowNbytes) :
    ∃ a g', scaleConvert horizScale g (some src) = some (a, g') ∧
      a.outRow = some (horizScale src) ∧ Reached fast 0x10000 (k + 1) g' ∧
      g'.nMoreHeldOutRows = 0 ∧ g'.outRowNbytes = g.outRowNbytes := by
  obtain ⟨rows, hrow⟩ := contoneScaleRow_one hg src hlen
  have hag := hg.agrees.at (advance fast 0x10000 (positions fast 0x10000 k)).2 rows
  have hmax : [horizScale src].length
      ≤ (g.at (advance fast 0x10000 (positions fast 0x10000 k)).2 rows).nMaxOutRows := by
    rw [hag.maxOut]
    exact Nat.le_refl 1
  rw [scaleConvert, if_neg (by omega)]
  simp only [hrow, Option.bind_eq_bind, Option.bind_some]
  rw [check_pos hmax]
  refine ⟨_, _, rfl, rfl, ⟨?_, hg.input, hg.noFlush⟩, rfl, rfl⟩
  exact ⟨hag.replicates, hag.fac, hag.pos, hag.inv, hag.saved, hag.invFac, hag.alloc, hag.maxOut⟩

theorem scaleConvert_end (hg : Reached fast 0x10000 k g) (hheld : g.nMoreHeldOutRows = 0) :
    ∃ a g', scaleConvert horizScale g none = some (a, g') ∧ a.outRow = none ∧ a.done = true := by
  rw [scaleConvert, if_neg (by omega), check_pos hg.noFlush]
  refine ⟨_, _, rfl, rfl, ?_⟩
  simp [hg.noFlush, hheld]

theorem scaleOpen_width (fast : Bool) {inRow outRow : Nat} (hin : 0 < inRow) :
    Returns (scaleOpen fast 0x10000 inRow outRow) fun g =>
      Reached fast 0x10000 0 g ∧ g.nMoreHeldOutRows = 0 ∧ g.outRowNbytes = outRow := by
  obtain ⟨g, hopen, hreached, hheld⟩ :=
    scaleOpen_returns (show 0x4000 ≤ 0x10000 by decide) (by decide) outRow hin
  refine ⟨g, hopen, ?_, hheld, ?_⟩
  · simpa using hreached
  · obtain ⟨-, hopen⟩ := of_check hopen
    obtain ⟨-, hopen⟩ := of_check hopen
    exact (Option.some.inj hopen) ▸ rfl

/-- **Run lemma.** Every row comes out scaled horizontally, and then the job is done. -/
theorem scaleRun_one (hg : Reached fast 0x10000 k g) (hheld : g.nMoreHeldOutRows = 0)
    (img : List Row) (hlen : ∀ src ∈ img, (horizScale src).length ≤ g.outRowNbytes) :
    Returns (scaleRun horizScale g (img.map some ++ [none])) fun r =>
      r.1.filterMap (·.outRow) = img.map horizScale ∧
        (r.1.getLast?.map (·.done)) = some true := by
  induction img generalizing k g with
  | nil =>
    obtain ⟨a, g', hend, hnone, hdone⟩ := scaleConvert_end hg hheld
    rw [List.map_nil, List.nil_append, scaleRun, hend]
    exact ⟨_, rfl, by simp [hnone], by simp [hdone]⟩
  | cons src img ih =>
    obtain ⟨a, g', hrow, hout, hg', hheld', hwidth⟩ :=
      scaleConvert_one hg hheld src (hlen src List.mem_cons_self)
    rw [List.map_cons, List.cons_append, scaleRun, hrow, Option.bind_eq_bind, Option.bind_some]
    refine Returns.bind (ih hg' hheld' fun s hs => ?_) ?_
    · rw [hwidth]
      exact hlen s (List.mem_cons_of_mem _ hs)
    · rintro ⟨as, g''⟩ ⟨hrows, hlast⟩
      refine ⟨_, rfl, ?_, ?_⟩
      · rw [List.filterMap_cons, hout, List.map_cons, ← hrows]
      · cases as with
        | nil => cases hlast
        | cons b as => exact hlast

end Rows

/-! ## A row -/

section Row

variable {channels n : Nat} {row : Row}

theorem run_over (pos i : Nat) :
    ((pos + 0x10001) % 0x10000 + i) % 0x10000 = (pos + (i + 1)) % 0x10000 := by
  lia

theorem upScale_step {inv limit fuel q pos c p : Nat} {ts : List Taps} (hc : c < limit)
    (hcopy : upCopies inv q 0x10000 pos = (ts, p)) : upScale inv limit (fuel + 1) q pos c
      = ts ++ upScale inv limit fuel (q + 1) (p % 0x10000) (c + ts.length) := by
  rw [upScale, if_pos hc, hcopy]

theorem upCopies_one (q : Nat) {pos : Nat} (hpos : pos < 0x10000) :
    upCopies 0x10001 q 0x10000 pos = ([upTaps pos q], pos + 0x10001) := by
  obtain ⟨k, hk, hlast, -⟩ := upCopies_spec 0x10001 q 0x10000 hpos (by lia)
  obtain rfl : k = 0 := by lia
  rw [hk]
  simp

theorem upScale_one (limit fuel : Nat) {q pos c : Nat} (hpos : pos < 0x10000)
    (hfuel : limit ≤ c + fuel) : upScale 0x10001 limit fuel q pos c
      = (List.range (limit - c)).map fun i => upTaps ((pos + i) % 0x10000) (q + i) := by
  induction fuel generalizing q pos c with
  | zero =>
    rw [show limit - c = 0 by lia]
    rfl
  | succ fuel ih =>
    by_cases hc : c < limit
    · rw [upScale_step hc (upCopies_one q hpos), List.length_singleton,
        ih (Nat.mod_lt _ (by decide)) (by lia), show limit - c = limit - (c + 1) + 1 by lia,
        List.range_succ_eq_map, List.map_cons, List.map_map, List.singleton_append]
      congr 1
      · rw [Nat.add_zero, Nat.add_zero, Nat.mod_eq_of_lt hpos]
      · refine List.map_congr_left fun i _ => ?_
        rw [Function.comp_apply, run_over, Nat.succ_eq_add_one, Nat.add_right_comm q 1 i,
          Nat.add_assoc q i 1]
    · rw [upScale, if_neg hc, show limit - c = 0 by lia]
      rfl

/-- The weight of the next pixel, at pixel `i`. -/
def drift (i : Nat) : Nat := i % 0x10000 / 256

theorem drift_le (i : Nat) : drift i ≤ 255 := by
  rw [drift]
  lia

def blendedByte (channels : Nat) (inP : Row) (j : Nat) : UInt8 :=
  UInt8.ofNat (((256 - drift (j / channels)) * byte inP j
    + drift (j / channels) * byte inP (j + channels)) / 256)

theorem blend_le {a b w : Nat} (ha : a ≤ 255) (hb : b ≤ 255) (hw : w ≤ 255) :
    (256 - w) * a + w * b ≤ 130305 := by
  have hfirst : (256 - w) * a ≤ 65280 := Nat.mul_le_mul (Nat.sub_le 256 w) ha
  have hsecond : w * b ≤ 65025 := Nat.mul_le_mul hw hb
  exact Nat.add_le_add hfirst hsecond

theorem weighTaps_up {i k w : Nat} (inP : Row) (hw : w ≤ 255) :
    weighTaps channels k inP [(i, minus 256 w), (i + 1, w)]
      = UInt8.ofNat (((256 - w) * byte inP (channels * i + k)
        + w * byte inP (channels * i + k + channels)) / 256) := by
  have hnext : channels * (i + 1) + k = channels * i + k + channels := by
    rw [Nat.mul_succ]
    lia
  have hle := blend_le (byte_le inP (channels * i + k)) (byte_le inP (channels * i + k + channels)) hw
  rw [weighTaps, minus_of_le (by lia) (Nat.le_refl _)]
  simp only [List.map_cons, List.map_nil, List.sum_cons, List.sum_nil, Nat.add_zero, hnext]
  rw [Nat.mod_eq_of_lt (Nat.lt_of_le_of_lt hle (by decide))]

theorem weighTaps_one {i k : Nat} (hk : k < channels) (inP : Row) :
    weighTaps channels k inP (upTaps (i % 0x10000) i) = blendedByte channels inP (channels * i + k) := by
  have hw : (i % 0x10000) >>> 8 = drift i := Nat.shiftRight_eq_div_pow _ 8
  have hpixel : (channels * i + k) / channels = i := by
    rw [Nat.mul_add_div (Nat.zero_lt_of_lt hk), Nat.div_eq_of_lt hk, Nat.add_zero]
  rw [upTaps, hw, blendedByte, hpixel]
  exact weighTaps_up inP (drift_le i)

theorem flatMap_range_mul {α : Type} (c n : Nat) (f : Nat → α) :
    ((List.range n).flatMap fun i => (List.range c).map fun k => f (c * i + k))
      = (List.range (c * n)).map f := by
  induction n with
  | zero => rfl
  | succ n ih =>
    rw [List.range_succ, List.flatMap_append, ih, List.flatMap_singleton, Nat.mul_succ,
      List.range_add, List.map_append, List.map_map]
    rfl

/-- **A row at the factor 1**, byte by byte. -/
theorem horizScale_one (imageType : ImType) (fast : Bool) (hn : IsInt n) (row : Row) :
    (opened imageType fast 0x10000 n).horizScale n row
      = (List.range (imageType.channels * n)).map
        (blendedByte imageType.channels (dupRightPixel imageType.channels n row)) := by
  have hout : outPixels 0x10000 n = n := outPixels_one hn
  have htaps : (opened imageType fast 0x10000 n).taps
      = (List.range n).map fun i => upTaps (i % 0x10000) i := by
    rw [HorizInst.taps, opened, if_pos (Nat.le_refl _), hout, inverse_one, Int.toNat_natCast,
      upScale_one n n (by decide) (by omega)]
    simp only [Nat.zero_add, Nat.sub_zero]
  have hbytes : (opened imageType fast 0x10000 n).outRowNbytes.toNat = imageType.channels * n := by
    show (outPixels 0x10000 n * imageType.channels).toNat = _
    rw [hout, Int.mul_comm]
    exact Int.toNat_natCast (imageType.channels * n)
  have hflat : ((List.range n).flatMap fun i => (List.range imageType.channels).map fun k =>
        weighTaps imageType.channels k (dupRightPixel imageType.channels n row)
          (upTaps (i % 0x10000) i))
      = (List.range (imageType.channels * n)).map
        (blendedByte imageType.channels (dupRightPixel imageType.channels n row)) := by
    rw [← flatMap_range_mul]
    rw [List.flatMap_def, List.flatMap_def]
    refine congrArg List.flatten (List.map_congr_left fun i _ => ?_)
    exact List.map_congr_left fun k hk => weighTaps_one (List.mem_range.mp hk) _
  rw [HorizInst.horizScale, htaps, hbytes, List.flatMap_map]
  refine (congrArg (List.take _) hflat).trans (List.take_of_length_le ?_)
  rw [List.length_map, List.length_range]

theorem blend_eq_iff {a b w : Nat} (ha : a ≤ 255) (hb : b ≤ 255) (hw : w ≤ 255) :
    UInt8.ofNat (((256 - w) * a + w * b) / 256) = UInt8.ofNat a ↔
      0 ≤ (w : Int) * ((b : Int) - a) ∧ (w : Int) * ((b : Int) - a) < 256 := by
  have hfirst : (256 - w) * a ≤ (256 - w) * 255 := Nat.mul_le_mul_left _ ha
  have hsecond : w * b ≤ w * 255 := Nat.mul_le_mul_left _ hb
  have hsum : (((256 - w) * a + w * b : Nat) : Int) = 256 * a + w * ((b : Int) - a) := by
    rw [Nat.cast_add, Nat.cast_mul, Nat.cast_mul, Nat.cast_sub (by lia)]
    push_cast
    ring
  have hinj {x : Nat} (hx : x < 256) : UInt8.ofNat x = UInt8.ofNat a ↔ x = a := by
    constructor
    · intro h
      have hnat := congrArg UInt8.toNat h
      rwa [UInt8.toNat_ofNat', UInt8.toNat_ofNat', Nat.mod_eq_of_lt hx,
        Nat.mod_eq_of_lt (by lia)] at hnat
    · rintro rfl
      rfl
  rw [hinj (by lia)]
  generalize (w : Int) * ((b : Int) - a) = d at hsum
  lia

/-- No step of the row is too high, or too low, for the weight that it gets. -/
def Level (channels : Nat) (row : Row) : Prop :=
  ∀ j, j + channels < row.length →
    let step : Int := drift (j / channels) * ((byte row (j + channels) : Int) - byte row j)
    0 ≤ step ∧ step < 256

theorem byte_dup (hrow : row.length = channels * n) {j : Nat} (hj : j < channels * n) :
    byte (dupRightPixel channels n row) j = byte row j := by
  rw [byte, dupRightPixel, List.take_of_length_le (Nat.le_of_eq hrow),
    List.getD_append _ _ _ _ (by omega)]
  rfl

theorem byte_dup_last (hrow : row.length = channels * n) {j : Nat} (hj : j < channels * n)
    (hlast : channels * n ≤ j + channels) :
    byte (dupRightPixel channels n row) (j + channels) = byte row j := by
  obtain ⟨m, rfl⟩ := Nat.exists_eq_succ_of_ne_zero
    (show n ≠ 0 by rintro rfl; exact absurd hj (Nat.not_lt_zero j))
  rw [Nat.mul_succ] at hlast
  have hindex : channels * m + (j + channels - channels * (m + 1)) = j := by
    rw [Nat.mul_succ]
    lia
  rw [byte, dupRightPixel, List.take_of_length_le (Nat.le_of_eq hrow), List.getD_eq_getElem?_getD,
    List.getElem?_append_right (by rw [hrow, Nat.mul_succ]; lia), List.getElem?_drop, hrow,
    Nat.succ_sub_one, hindex, ← List.getD_eq_getElem?_getD]
  rfl

/-- **Which rows are not changed.** -/
theorem horizScale_one_iff (imageType : ImType) (fast : Bool) (hn : IsInt n)
    (hrow : row.length = imageType.channels * n) :
    (opened imageType fast 0x10000 n).horizScale n row = row ↔ Level imageType.channels row := by
  rw [horizScale_one imageType fast hn]
  generalize imageType.channels = channels at hrow
  have hbyte {j : Nat} (hj : j < channels * n) :
      (blendedByte channels (dupRightPixel channels n row) j = UInt8.ofNat (byte row j) ↔
        (j + channels < row.length →
          0 ≤ (drift (j / channels) : Int) * ((byte row (j + channels) : Int) - byte row j) ∧
            (drift (j / channels) : Int) * ((byte row (j + channels) : Int) - byte row j) < 256)) := by
    rw [blendedByte, byte_dup hrow hj]
    by_cases hmore : j + channels < channels * n
    · rw [byte_dup hrow hmore, blend_eq_iff (byte_le _ _) (byte_le _ _) (drift_le _), hrow,
        forall_prop_of_true hmore]
    · -- the last pixel is blended with its own copy
      rw [byte_dup_last hrow hj (Nat.not_lt.mp hmore), ← Nat.add_mul,
        Nat.sub_add_cancel (Nat.le_succ_of_le (drift_le _)), Nat.mul_div_cancel_left _ (by decide),
        hrow]
      exact iff_of_true rfl fun h => absurd h hmore
  have hget {j : Nat} (hj : j < row.length) : row[j] = UInt8.ofNat (byte row j) := by
    rw [byte, UInt8.ofNat_toNat, List.getD_eq_getElem _ _ hj]
  constructor
  · intro h j hj
    have hj' : j < channels * n := by omega
    refine (hbyte hj').mp ?_ hj
    have hat := congrArg (·[j]?) h
    simp only [List.getElem?_map, List.getElem?_range hj', Option.map_some] at hat
    rw [List.getElem?_eq_getElem (by omega), hget (by omega)] at hat
    exact Option.some.inj hat
  · intro h
    refine List.ext_getElem (by rw [List.length_map, List.length_range, hrow]) fun j h₁ h₂ => ?_
    rw [List.getElem_map, List.getElem_range, hget h₂]
    exact (hbyte (hrow ▸ h₂)).mpr (h j)

end Row

/-! ## An image -/

section Image

variable {imageType : ImType} {fast : Bool} {n : Nat} {g : HorizInst}

/-- The image that goes in comes out, and the last call says that the job is done. -/
def Unchanged (fast : Bool) (g : HorizInst) (n : Nat) (img : List Row) : Prop :=
  Returns (scaleOpen fast 0x10000 g.inRowNbytes.toNat g.outRowNbytes.toNat >>= fun s =>
      scaleRun (g.horizScale n) s (img.map some ++ [none])) fun r =>
    r.1.filterMap (·.outRow) = img ∧ (r.1.getLast?.map (·.done)) = some true

theorem scale_one_rows (hg : contoneScaleOpen imageType fast 0x10000 n = .ok g) (hn : 0 < n)
    (img : List Row) :
    Returns (scaleOpen fast 0x10000 g.inRowNbytes.toNat g.outRowNbytes.toNat >>= fun s =>
        scaleRun (g.horizScale n) s (img.map some ++ [none])) fun r =>
      r.1.filterMap (·.outRow) = img.map (g.horizScale n) ∧
        (r.1.getLast?.map (·.done)) = some true := by
  obtain ⟨hint, rfl⟩ := contoneScaleOpen_eq hg
  have hin : 0 < (opened imageType fast 0x10000 n).inRowNbytes.toNat := by
    show 0 < ((n : Int) * imageType.channels).toNat
    cases imageType <;> simp only [ImType.channels] <;> lia
  refine Returns.bind (scaleOpen_width fast hin) ?_
  rintro s ⟨hreached, hheld, hwidth⟩
  refine scaleRun_one hreached hheld img fun src _ => ?_
  rw [hwidth]
  exact List.length_take_le _ _

/-- **Scaling by one** leaves an image as it is exactly when every row of it is level. -/
theorem unchanged_iff (hg : contoneScaleOpen imageType fast 0x10000 n = .ok g) (hn : 0 < n)
    {img : List Row} (hrow : ∀ row ∈ img, row.length = imageType.channels * n) :
    Unchanged fast g n img ↔ ∀ row ∈ img, Level imageType.channels row := by
  obtain ⟨r, hr, hrows, hdone⟩ := scale_one_rows hg hn img
  obtain ⟨hint, rfl⟩ := contoneScaleOpen_eq hg
  have hsame : img.map ((opened imageType fast 0x10000 n).horizScale n) = img ↔
      ∀ row ∈ img, Level imageType.channels row := by
    conv_lhs => rhs; rw [← List.map_id img]
    rw [List.map_inj_left]
    refine forall₂_congr fun row hmem => ?_
    exact horizScale_one_iff imageType fast hint (hrow row hmem)
  rw [← hsame]
  constructor
  · rintro ⟨r', hr', hrows', -⟩
    obtain rfl := Option.some.inj (hr.symm.trans hr')
    rw [← hrows, hrows']
  · intro h
    exact ⟨r, hr, hrows.trans h, hdone⟩

theorem unchanged_two_rows : Unchanged true (opened .color true 0x10000 1) 1 [[1, 2, 3], [4, 5, 6]] ↔
    ∀ row ∈ [[1, 2, 3], [4, 5, 6]], Level 3 row :=
  unchanged_iff (show contoneScaleOpen .color true 0x10000 1 = .ok _ from rfl) (by decide)
    (by decide)

/-- The first pixel that gets a weight: its last one is lost. -/
theorem step_down_lost : ¬ ∀ (imageType : ImType) (fast : Bool) (n : Nat) (g : HorizInst)
    (img : List Row), 0 < n → contoneScaleOpen imageType fast 0x10000 n = .ok g →
      (∀ row ∈ img, row.length = imageType.channels * n) → Unchanged fast g n img := by
  intro h
  obtain ⟨row, hrow⟩ : ∃ row : Row, row = List.replicate 256 0 ++ [1, 0] := ⟨_, rfl⟩
  have hlen : row.length = 1 * 258 := by
    rw [hrow]
    decide +kernel
  have hlevel : ¬ Level 1 row := by
    intro hlevel
    have hstep := (hlevel 256 (by rw [hlen]; decide)).1
    rw [hrow] at hstep
    revert hstep
    decide +kernel
  have hopen : contoneScaleOpen .gray true 0x10000 258 = .ok (opened .gray true 0x10000 258) := rfl
  obtain ⟨r, hr, hsame, -⟩ := h .gray true 258 _ [row] (by decide) hopen
    (List.forall_mem_singleton.mpr hlen)
  obtain ⟨r', hr', hrows, -⟩ := scale_one_rows hopen (by decide) [row]
  obtain rfl := Option.some.inj (hr.symm.trans hr')
  rw [hsame, List.map_singleton, List.singleton_inj] at hrows
  exact hlevel ((horizScale_one_iff .gray true (by decide) hlen).mp hrows.symm)

end Image

end Hplip.Ip.HorizScale
