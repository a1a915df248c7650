import Hplip.Ip.Scale
import Hplip.Lib.CInt

/-!
# Horizontal scaling of grey and colour rows

`gray_horiz_scale` and `color_horiz_scale` make output pixels of weighted input pixels, the
second one three components at a time. Where they read and how many pixels they write depends on
positions only: a pixel is its taps, the input pixels that go in with their weights.
-/

namespace Hplip.Ip.HorizScale

open Scale CInt

/-! ## The instance -/

inductive ImType where
  | gray
  | color
  deriving DecidableEq, Repr

def ImType.channels : ImType → Nat
  | .gray => 1
  | .color => 3

inductive ScaleFault where
  | assertion
  | overflow
  deriving DecidableEq, Repr

/-- What the horizontal scaling of `SC_INST` needs. -/
structure HorizInst where
  imageType : ImType
  fast : Bool
  horizFac : Nat
  inRowNbytes : Int
  outRowNbytes : Int
  outRowPixels : Int
  invHorizFac : Nat

/-- `(horiz_fac * in_row_len) >> 16`, as an `int` -/
def outPixels (horizFac inRowLen : Nat) : Int :=
  ofDword (UInt32.ofNat (horizFac * inRowLen / 0x10000))

/-- The horizontal part of `contone_scale_open`. -/
def contoneScaleOpen (imageType : ImType) (fast : Bool) (horizFac inRowLen : Nat) :
    Except ScaleFault HorizInst := do
  Checked.require (fast = true ∨ 0x4000 ≤ horizFac ∧ horizFac ≤ 0x60000) .assertion
  let inRowLen' ← int .overflow inRowLen
  let out := outPixels horizFac inRowLen
  let inRowNbytes ← int .overflow (inRowLen' * imageType.channels)
  let outRowNbytes ← int .overflow (out * imageType.channels)
  return ⟨imageType, fast, horizFac, inRowNbytes, outRowNbytes, out, inverse horizFac⟩

/-! ## Loops -/

/-- The input pixels that an output pixel is made of, with their weights. -/
abbrev Taps := List (Nat × Nat)

/-- `a - b` of UINT -/
def minus (a b : Nat) : Nat := (2 ^ 32 + a - b) % 2 ^ 32

/-- A pixel between `in_p` and the next one. -/
def upTaps (horizPos inP : Nat) : Taps :=
  let w2 := horizPos >>> 8
  let w1 := minus 256 w2
  [(inP, w1), (inP + 1, w2)]

/-- `do { .. } while ((horiz_pos>>16) == 0)` of up-scaling: the pixels, and the position then. -/
def upCopies (inv inP : Nat) : Nat → Nat → List Taps × Nat
  | 0, horizPos => ([], horizPos)
  | fuel + 1, horizPos =>
    let horizPos' := horizPos + inv
    if horizPos' >>> 16 = 0 then
      let (ts, last) := upCopies inv inP fuel horizPos'
      (upTaps horizPos inP :: ts, last)
    else ([upTaps horizPos inP], horizPos')

/-- Up-scaling: `count` pixels are written so far, and the row has `limit`. -/
def upScale (inv limit : Nat) : Nat → Nat → Nat → Nat → List Taps
  | 0, _, _, _ => []
  | fuel + 1, inP, horizPos, count =>
    if count < limit then
      let (ts, horizPos') := upCopies inv inP 0x10000 horizPos
      ts ++ upScale inv limit fuel (inP + 1) (horizPos' % 0x10000) (count + ts.length)
    else []

def fastDown (inv : Nat) : Nat → Nat → Nat → List Taps
  | 0, _, _ => []
  | turns + 1, inP, horizPos =>
    [(inP, 256)] :: fastDown inv turns (inP + (horizPos + inv) / 0x10000)
      ((horizPos + inv) % 0x10000)

/-- `do { new_pos += horiz_fac; n_pix += 1; } while ((new_pos>>16) == 0)` -/
def overlap (f : Nat) : Nat → Nat → Nat → Nat × Nat
  | 0, newPos, nPix => (nPix, newPos)
  | fuel + 1, newPos, nPix =>
    if (newPos + f) >>> 16 = 0 then overlap f fuel (newPos + f) (nPix + 1)
    else (nPix + 1, newPos + f)

/-- The blend of `nPix` pixels. -/
def blendTaps (f inP horizPos nPix : Nat) : Taps :=
  let w2 := f >>> 8
  let sum := (horizPos >>> 8) + (nPix - 2) * w2
  (inP, horizPos >>> 8) :: (List.range (nPix - 2)).map (fun u => (inP + 1 + u, w2))
    ++ [(inP + (nPix - 1), minus 256 sum)]

def slowDown (f : Nat) : Nat → Nat → Nat → List Taps
  | 0, _, _ => []
  | turns + 1, inP, horizPos =>
    let (nPix, newPos) := overlap f 0x10000 horizPos 1
    blendTaps f inP horizPos nPix :: slowDown f turns (inP + (nPix - 1)) (newPos % 0x10000)

def HorizInst.taps (g : HorizInst) : List Taps :=
  let limit := g.outRowPixels.toNat
  if 0x10000 ≤ g.horizFac then upScale g.invHorizFac limit limit 0 0 0
  else if g.fast then fastDown g.invHorizFac limit 0 0
  else slowDown g.horizFac limit 0 g.horizFac

/-! ## Rows -/

def dupRightPixel (channels n : Nat) (row : Row) : Row :=
  row.take (channels * n) ++ (row.take (channels * n)).drop (channels * (n - 1))

/-- Component `k` of a weighted pixel. -/
def weighTaps (channels k : Nat) (row : Row) (t : Taps) : UInt8 :=
  UInt8.ofNat ((t.map fun x => x.2 * byte row (channels * x.1 + k)).sum % 2 ^ 32 / 256)

/-- The output row of `gray_horiz_scale` or `color_horiz_scale`, from a row of `n` pixels. -/
def HorizInst.horizScale (g : HorizInst) (n : Nat) (row : Row) : Row :=
  let inP := dupRightPixel g.imageType.channels n row
  (g.taps.flatMap fun t => (List.range g.imageType.channels).map fun k =>
    weighTaps g.imageType.channels k inP t).take g.outRowNbytes.toNat

/-! ## Up-scaling -/

section Up

variable {inv : Nat}

theorem shiftRight_eq_zero {n : Nat} : n >>> 16 = 0 ↔ n < 0x10000 := by
  rw [Nat.shiftRight_eq_div_pow]
  lia

theorem minus_of_le {a b : Nat} (h : b ≤ a) (ha : a ≤ 256) : minus a b = a - b := by
  rw [minus]
  lia

theorem upCopies_spec (inv inP fuel : Nat) {pos : Nat} (hpos : pos < 0x10000)
    (hfuel : 0x10000 ≤ pos + fuel * inv) :
    ∃ k, upCopies inv inP fuel pos
        = ((List.range (k + 1)).map (fun e => upTaps (pos + e * inv) inP), pos + (k + 1) * inv) ∧
      pos + k * inv < 0x10000 ∧ 0x10000 ≤ pos + (k + 1) * inv := by
  induction fuel generalizing pos with
  | zero => lia
  | succ fuel ih =>
    rw [upCopies]
    by_cases hmore : pos + inv < 0x10000
    · rw [Nat.succ_mul] at hfuel
      obtain ⟨k, hk, hlast, hnext⟩ := ih hmore (by lia)
      have hshift (e : Nat) : pos + inv + e * inv = pos + (e + 1) * inv := by
        rw [Nat.succ_mul]
        lia
      simp only [hshift] at hk hlast hnext
      refine ⟨k + 1, ?_, hlast, hnext⟩
      simp only [if_pos (shiftRight_eq_zero.mpr hmore), hk]
      conv_rhs => rw [List.range_succ_eq_map, List.map_cons, List.map_map, Nat.zero_mul, Nat.add_zero]
      rfl
    · refine ⟨0, ?_, by lia, by lia⟩
      simp [shiftRight_eq_zero, Nat.not_lt.mp hmore]

/-- Where pixel `c` begins: its input pixel and the position behind that. For the factor 1 the
position runs over without a further input pixel. -/
def Tracks (inv c q pos : Nat) : Prop :=
  if inv ≤ 0x10000 then c * inv = 0x10000 * q + pos else q = c

theorem Tracks.next {c q pos k : Nat} (h : Tracks inv c q pos) (hinv : inv ≤ 0x10001)
    (hlast : pos + k * inv < 0x10000) (hnext : 0x10000 ≤ pos + (k + 1) * inv) :
    Tracks inv (c + (k + 1)) (q + 1) ((pos + (k + 1) * inv) % 0x10000) := by
  have hstep : (k + 1) * inv = k * inv + inv := Nat.succ_mul k inv
  unfold Tracks at h ⊢
  split at h
  · rename_i hle
    rw [if_pos hle, Nat.add_mul, h]
    lia
  · rename_i hle
    rw [if_neg hle, h]
    rcases Nat.eq_zero_or_pos k with rfl | hk
    · rfl
    · have hmul : inv ≤ k * inv := Nat.le_mul_of_pos_left inv hk
      lia

/-- The last input pixel that up-scaling comes to: the first of its copies is pixel `c`, and all
`k + 1` of them are written. -/
structure LastPixel (inv limit c q pos k : Nat) (ts : List Taps) : Prop where
  tracks : Tracks inv c q pos
  before : c < limit
  after : limit ≤ c + (k + 1)
  last : pos + k * inv < 0x10000
  next : 0x10000 ≤ pos + (k + 1) * inv
  taps : ∀ t ∈ ts, ∀ x ∈ t, x.1 ≤ q + 1 ∧ x.2 ≤ 256
  reached : ∃ t ∈ ts, ∃ x ∈ t, x.1 = q + 1

theorem upTaps_le {pos k q : Nat} (hlast : pos + k * inv < 0x10000) :
    ∀ t ∈ (List.range (k + 1)).map (fun e => upTaps (pos + e * inv) q), ∀ x ∈ t,
      x.1 ≤ q + 1 ∧ x.2 ≤ 256 := by
  intro t ht x hx
  obtain ⟨e, he, rfl⟩ := List.mem_map.mp ht
  have hmul : e * inv ≤ k * inv :=
    Nat.mul_le_mul_right inv (Nat.le_of_lt_succ (List.mem_range.mp he))
  have hw : (pos + e * inv) >>> 8 ≤ 256 := by
    rw [Nat.shiftRight_eq_div_pow]
    lia
  simp only [upTaps, List.mem_cons, List.not_mem_nil, or_false] at hx
  rcases hx with rfl | rfl
  · exact ⟨Nat.le_succ q, by rw [minus_of_le hw (Nat.le_refl _)]; exact Nat.sub_le _ _⟩
  · exact ⟨Nat.le_refl _, hw⟩

/-- **Up-scaling** goes on to the end of the copies of an input pixel. -/
theorem upScale_spec (hinv : 0 < inv) (hle : inv ≤ 0x10001) {limit : Nat} (fuel : Nat)
    {q pos c : Nat} (hpos : pos < 0x10000) (htracks : Tracks inv c q pos) (hc : c < limit)
    (hfuel : limit ≤ c + fuel) :
    ∃ c' q' pos' k, LastPixel inv limit c' q' pos' k (upScale inv limit fuel q pos c) ∧
      c + (upScale inv limit fuel q pos c).length = c' + (k + 1) ∧ q ≤ q' := by
  induction fuel generalizing q pos c with
  | zero => lia
  | succ fuel ih =>
    obtain ⟨k, hk, hlast, hnext⟩ := upCopies_spec inv q 0x10000 hpos (by lia)
    rw [upScale, if_pos hc]
    simp only [hk, List.length_map, List.length_range]
    have hle' := upTaps_le (q := q) hlast
    have hreached : ∃ t ∈ (List.range (k + 1)).map (fun e => upTaps (pos + e * inv) q),
        ∃ x ∈ t, x.1 = q + 1 :=
      ⟨_, List.mem_map_of_mem (List.mem_range.mpr (Nat.succ_pos k)), (q + 1, _),
        List.mem_cons_of_mem _ List.mem_cons_self, rfl⟩
    -- the copies of this input pixel, and those of the next one if the row is not full
    by_cases hmore : c + (k + 1) < limit
    · have hnext' := htracks.next hle hlast hnext
      obtain ⟨c', q', pos', k', hlastPixel, hlen, hq⟩ :=
        ih (Nat.mod_lt _ (by decide)) hnext' hmore (by lia)
      refine ⟨c', q', pos', k', ⟨hlastPixel.tracks, hlastPixel.before, hlastPixel.after,
        hlastPixel.last, hlastPixel.next, ?_, ?_⟩, ?_, by lia⟩
      · intro t ht x hx
        rcases List.mem_append.mp ht with ht | ht
        · have hx' := hle' t ht x hx
          exact ⟨by lia, hx'.2⟩
        · exact hlastPixel.taps t ht x hx
      · obtain ⟨t, ht, hx⟩ := hlastPixel.reached
        exact ⟨t, List.mem_append_right _ ht, hx⟩
      · rw [List.length_append, List.length_map, List.length_range]
        lia
    · have hstop : upScale inv limit fuel (q + 1) ((pos + (k + 1) * inv) % 0x10000)
          (c + (k + 1)) = [] := by
        cases fuel with
        | zero => rfl
        | succ fuel => exact if_neg hmore
      rw [hstop, List.append_nil]
      refine ⟨c, q, pos, k, ⟨htracks, hc, by lia, hlast, hnext, hle', hreached⟩, ?_, Nat.le_refl q⟩
      rw [List.length_map, List.length_range]

end Up

/-! ## Down-scaling -/

section Down

theorem fastDown_eq (inv turns inP : Nat) {pos : Nat} (hpos : pos < 0x10000) :
    fastDown inv turns inP pos
      = (List.range turns).map fun e => [(inP + (pos + e * inv) / 0x10000, 256)] := by
  induction turns generalizing inP pos with
  | zero => rfl
  | succ turns ih =>
    have hshift (e : Nat) : inP + (pos + inv) / 0x10000
        + ((pos + inv) % 0x10000 + e * inv) / 0x10000
          = inP + (pos + (e + 1) * inv) / 0x10000 := by
      have hmul : (e + 1) * inv = e * inv + inv := Nat.succ_mul e inv
      lia
    rw [fastDown, ih _ (Nat.mod_lt _ (by decide)), List.range_succ_eq_map, List.map_cons,
      List.map_map]
    congr 1
    · rw [Nat.zero_mul, Nat.add_zero, Nat.div_eq_of_lt hpos]
      rfl
    · refine List.map_congr_left fun e _ => ?_
      rw [hshift]
      rfl

theorem overlap_spec {f : Nat} (nPix fuel : Nat) {pos : Nat} (hpos : pos < 0x10000)
    (hfuel : 0x10000 ≤ pos + fuel * f) :
    ∃ k, overlap f fuel pos nPix = (nPix + (k + 1), pos + (k + 1) * f) ∧
      pos + k * f < 0x10000 ∧ 0x10000 ≤ pos + (k + 1) * f := by
  induction fuel generalizing nPix pos with
  | zero => lia
  | succ fuel ih =>
    rw [overlap]
    by_cases hmore : pos + f < 0x10000
    · rw [Nat.succ_mul] at hfuel
      obtain ⟨k, hk, hlast, hnext⟩ := ih (nPix + 1) hmore (by lia)
      have hshift (e : Nat) : pos + f + e * f = pos + (e + 1) * f := by
        rw [Nat.succ_mul]
        lia
      rw [hshift] at hk hlast hnext
      rw [if_pos (shiftRight_eq_zero.mpr hmore), hk]
      refine ⟨k + 1, ?_, hlast, hnext⟩
      rw [Nat.add_assoc nPix, Nat.add_comm 1]
    · rw [if_neg (fun h => hmore (shiftRight_eq_zero.mp h))]
      exact ⟨0, by rw [Nat.one_mul], by lia, by lia⟩

theorem blendTaps_le {f inP pos k : Nat} (hlast : pos + k * f < 0x10000) :
    ∀ x ∈ blendTaps f inP pos (k + 2), x.1 ≤ inP + (k + 1) ∧ x.2 ≤ 256 := by
  have hmul : k * (f / 256) * 256 ≤ k * f := by
    rw [Nat.mul_assoc]
    exact Nat.mul_le_mul_left k (Nat.div_mul_le_self f 256)
  have hsum : pos >>> 8 + k * (f >>> 8) ≤ 256 := by
    rw [Nat.shiftRight_eq_div_pow, show f >>> 8 = f / 256 from Nat.shiftRight_eq_div_pow f 8]
    lia
  intro x hx
  rw [blendTaps, Nat.add_sub_cancel, minus_of_le hsum (Nat.le_refl _)] at hx
  rcases List.mem_append.mp hx with hx | hx
  · rcases List.mem_cons.mp hx with rfl | hx
    · exact ⟨Nat.le_add_right _ _, by lia⟩
    · obtain ⟨u, hu, rfl⟩ := List.mem_map.mp hx
      have hu' : u < k := List.mem_range.mp hu
      have hone : f >>> 8 ≤ k * (f >>> 8) := Nat.le_mul_of_pos_left _ (by lia)
      exact ⟨by dsimp only; lia, by lia⟩
  · rw [List.mem_singleton.mp hx]
    exact ⟨Nat.le_refl _, by dsimp only; lia⟩

/-- **Down-scaling that is not fast** reads no pixel that begins behind the output row. -/
theorem slowDown_spec {f : Nat} (hf : 0 < f) (hf' : f < 0x10000) (turns inP : Nat) {pos : Nat}
    (hpos : pos ≤ f) :
    (slowDown f turns inP pos).length = turns ∧
      ∀ t ∈ slowDown f turns inP pos, ∀ x ∈ t,
        x.1 * f ≤ inP * f + (0x10000 * turns + f - pos) ∧ x.2 ≤ 256 := by
  induction turns generalizing inP pos with
  | zero => exact ⟨rfl, nofun⟩
  | succ turns ih =>
    obtain ⟨k, hk, hlast, hnext⟩ := overlap_spec (f := f) 1 0x10000
      (Nat.lt_of_le_of_lt hpos hf') (by lia)
    have hmul : (k + 1) * f = k * f + f := Nat.succ_mul k f
    have hpos' : (pos + (k + 1) * f) % 0x10000 ≤ f := by lia
    have hnPix : 1 + (k + 1) = k + 2 := by lia
    obtain ⟨hlen, hrest⟩ := ih (inP + (k + 1)) hpos'
    rw [slowDown]
    simp only [hk, hnPix]
    rw [show k + 2 - 1 = k + 1 by lia]
    refine ⟨by rw [List.length_cons, hlen], fun t ht x hx => ?_⟩
    rcases List.mem_cons.mp ht with rfl | ht
    · obtain ⟨hpixel, hweight⟩ := blendTaps_le hlast x hx
      have hle := Nat.mul_le_mul_right f hpixel
      rw [Nat.add_mul] at hle
      exact ⟨by lia, hweight⟩
    · obtain ⟨hpixel, hweight⟩ := hrest t ht x hx
      rw [Nat.add_mul] at hpixel
      exact ⟨by lia, hweight⟩

end Down

/-! ## Inside the buffers -/

/-- Nothing is read behind the duplicated pixel, nothing written behind the spare bytes, and no
weight is more than one. -/
structure Inside (g : HorizInst) (n : Nat) : Prop where
  reads : ∀ t ∈ g.taps, ∀ x ∈ t, x.1 ≤ n
  writes : ∀ i < g.imageType.channels * g.taps.length, (i : Int) < g.outRowNbytes + 12
  weights : ∀ t ∈ g.taps, ∀ x ∈ t, x.2 ≤ 256

/-- The last output pixel is made of the last input pixels, and of the copies behind it no more
than four are left. -/
def Fits (imageType : ImType) (fast : Bool) (f n : Nat) : Prop :=
  let out := (outPixels f n).toNat
  out = 0 ∨
    if 0x10000 ≤ f then
      (f = 0x10000 ∨ (out - 1) * inverse f < 0x10000 * n) ∧
        (imageType = .color → 0x10000 ≤ (out - 1) * inverse f % 0x10000 + 5 * inverse f)
    else fast = true → (out - 1) * inverse f < 0x10000 * (n + 1)

section Inside

variable {imageType : ImType} {fast : Bool} {f n : Nat} {g : HorizInst}

def opened (imageType : ImType) (fast : Bool) (f n : Nat) : HorizInst :=
  ⟨imageType, fast, f, n * imageType.channels, outPixels f n * imageType.channels, outPixels f n,
    inverse f⟩

theorem contoneScaleOpen_eq (h : contoneScaleOpen imageType fast f n = .ok g) :
    IsInt n ∧ g = opened imageType fast f n := by
  obtain ⟨_, -, h⟩ := steps_of_ok h
  obtain ⟨n', hn, h⟩ := steps_of_ok h
  obtain ⟨inBytes, hin, h⟩ := steps_of_ok h
  obtain ⟨outBytes, hout, h⟩ := steps_of_ok h
  obtain ⟨hint, rfl⟩ := int_eq_ok.mp hn
  obtain ⟨-, rfl⟩ := int_eq_ok.mp hin
  obtain ⟨-, rfl⟩ := int_eq_ok.mp hout
  exact ⟨hint, (Except.ok.inj h).symm⟩

theorem ofDword_ofNat_le (x : Nat) : (ofDword (UInt32.ofNat x)).toNat ≤ x := by
  have hmod : (UInt32.ofNat x).toNat ≤ x := by
    rw [UInt32.toNat_ofNat']
    exact Nat.mod_le _ _
  have hlt := (UInt32.ofNat x).toNat_lt
  rw [ofDword]
  split <;> lia

theorem outPixels_le (f n : Nat) : (outPixels f n).toNat ≤ f * n / 0x10000 := ofDword_ofNat_le _

theorem outPixels_one (hn : IsInt n) : outPixels 0x10000 n = n := by
  have hlt : n < 2 ^ 31 := by
    have := hn.2
    omega
  have hword : (UInt32.ofNat n).toNat = n :=
    UInt32.toNat_ofNat_of_lt' (Nat.lt_of_lt_of_le hlt (by decide))
  rw [outPixels, Nat.mul_div_cancel_left n (by decide), ofDword, hword, if_pos hlt]

theorem inverse_up (hf : 0x10000 ≤ f) (hf' : f ≤ 0x60000) :
    10923 ≤ inverse f ∧ inverse f ≤ 0x10001 ∧ (inverse f ≤ 0x10000 ↔ f ≠ 0x10000) := by
  have hlow : 0x80000000 / 0x60000 ≤ 0x80000000 / f := Nat.div_le_div_left hf' (by lia)
  have hhigh : 0x80000000 / f ≤ 0x80000000 / 0x10000 := Nat.div_le_div_left hf (by decide)
  rw [inverse]
  refine ⟨by lia, by lia, ?_⟩
  constructor
  · rintro hle rfl
    lia
  · intro hne
    have hless : 0x80000000 / f ≤ 0x80000000 / 0x10001 := Nat.div_le_div_left (by lia) (by decide)
    lia

theorem row_writes_iff {limit len : Nat} (h : (outPixels f n).toNat = limit) (hpos : 0 < limit)
    (hlen : (opened imageType fast f n).taps.length = len) :
    (∀ i < (opened imageType fast f n).imageType.channels * (opened imageType fast f n).taps.length,
        (i : Int) < (opened imageType fast f n).outRowNbytes + 12) ↔
      imageType.channels * len ≤ imageType.channels * limit + 12 := by
  have hbytes : (opened imageType fast f n).outRowNbytes
      = ((imageType.channels * limit : Nat) : Int) := by
    show outPixels f n * imageType.channels = _
    rw [show outPixels f n = (limit : Int) by lia, Int.mul_comm]
    rfl
  rw [hbytes, hlen, show (opened imageType fast f n).imageType = imageType from rfl]
  generalize imageType.channels * limit = a
  generalize imageType.channels * len = b
  constructor
  · intro hall
    by_contra hlong
    have := hall (a + 12) (by lia)
    lia
  · intro hle i hi
    lia

theorem inside_empty (h : g.taps = []) : Inside g n := by
  constructor
  · rw [h]
    exact nofun
  · rw [h]
    exact fun i hi => absurd hi (Nat.not_lt_zero i)
  · rw [h]
    exact nofun

theorem LastPixel.position {inv limit c q pos k : Nat} {ts : List Taps}
    (h : LastPixel inv limit c q pos k ts) (hinv : inv ≤ 0x10000) :
    (limit - 1) * inv = 0x10000 * q + (pos + (limit - 1 - c) * inv) ∧
      (limit - 1 - c) * inv ≤ k * inv := by
  have htracks := h.tracks
  have hbefore := h.before
  have hafter := h.after
  rw [Tracks, if_pos hinv] at htracks
  have hsplit : limit - 1 = c + (limit - 1 - c) := by lia
  refine ⟨?_, Nat.mul_le_mul_right inv (by lia)⟩
  conv_lhs => rw [hsplit, Nat.add_mul, htracks]
  lia

theorem up_reads_iff {limit c q pos k : Nat} {ts : List Taps} (hf : 0x10000 ≤ f)
    (hf' : f ≤ 0x60000) (h : LastPixel (inverse f) limit c q pos k ts)
    (hone : f = 0x10000 → limit = n) :
    (∀ t ∈ ts, ∀ x ∈ t, x.1 ≤ n) ↔
      f = 0x10000 ∨ (limit - 1) * inverse f < 0x10000 * n := by
  have hreach : (∀ t ∈ ts, ∀ x ∈ t, x.1 ≤ n) ↔ q + 1 ≤ n := by
    constructor
    · intro hall
      obtain ⟨t, ht, x, hx, hq⟩ := h.reached
      exact hq ▸ hall t ht x hx
    · exact fun hq t ht x hx => Nat.le_trans (h.taps t ht x hx).1 hq
  obtain ⟨-, -, hinv⟩ := inverse_up hf hf'
  have hbefore := h.before
  rw [hreach]
  by_cases hfac : f = 0x10000
  · have htracks := h.tracks
    rw [Tracks, if_neg (fun hle => hinv.mp hle hfac)] at htracks
    exact iff_of_true (by have := hone hfac; lia) (.inl hfac)
  · have hposition := h.position (hinv.mpr hfac)
    have hlast := h.last
    rw [or_iff_right hfac]
    lia

theorem up_writes_iff {limit c q pos k : Nat} {ts : List Taps} (hf : 0x10000 ≤ f)
    (hf' : f ≤ 0x60000) (h : LastPixel (inverse f) limit c q pos k ts) (imageType : ImType) :
    imageType.channels * (c + (k + 1)) ≤ imageType.channels * limit + 12 ↔
      (imageType = .color → 0x10000 ≤ (limit - 1) * inverse f % 0x10000 + 5 * inverse f) := by
  obtain ⟨hlow, -, hinv⟩ := inverse_up hf hf'
  have hbefore := h.before
  have hlast := h.last
  have hnext := h.next
  have hsucc : (k + 1) * inverse f = k * inverse f + inverse f := Nat.succ_mul k _
  -- Six copies of a pixel at most.
  have hk : k ≤ 5 := by
    by_contra hmore
    have hmul : 6 * inverse f ≤ k * inverse f := Nat.mul_le_mul_right _ (by lia)
    lia
  cases imageType with
  | gray =>
    simp only [ImType.channels]
    exact iff_of_true (by lia) nofun
  | color =>
    rw [forall_prop_of_true rfl]
    simp only [ImType.channels]
    by_cases hfac : f = 0x10000
    · -- the inverse of 1 is more than 1, so that no pixel is copied twice
      have hbig : ¬ inverse f ≤ 0x10000 := fun hle => hinv.mp hle hfac
      have hk0 : k = 0 := by
        by_contra hne
        have hmul : inverse f ≤ k * inverse f := Nat.le_mul_of_pos_left _ (by lia)
        lia
      exact iff_of_true (by lia) (by lia)
    · obtain ⟨hposition, hle⟩ := h.position (hinv.mpr hfac)
      have hmod : (limit - 1) * inverse f % 0x10000 = pos + (limit - 1 - c) * inverse f := by
        lia
      rw [hmod]
      generalize hj : limit - 1 - c = j at hle
      have hfive : (j + 5) * inverse f = j * inverse f + 5 * inverse f := Nat.add_mul j 5 _
      constructor
      · intro hshort
        have hmul : (k + 1) * inverse f ≤ (j + 5) * inverse f :=
          Nat.mul_le_mul_right _ (by lia)
        lia
      · intro hroom
        by_contra hlong
        have hmul : (j + 5) * inverse f ≤ k * inverse f := Nat.mul_le_mul_right _ (by lia)
        lia

theorem inside_up_iff (hf : 0x10000 ≤ f) (hf' : f ≤ 0x60000) (hn : IsInt n) {limit : Nat}
    (hlimit : (outPixels f n).toNat = limit) (hpos : 0 < limit) :
    Inside (opened imageType fast f n) n ↔
      (f = 0x10000 ∨ (limit - 1) * inverse f < 0x10000 * n) ∧
        (imageType = .color → 0x10000 ≤ (limit - 1) * inverse f % 0x10000 + 5 * inverse f) := by
  obtain ⟨hinv, hinv', -⟩ := inverse_up hf hf'
  have htaps : (opened imageType fast f n).taps = upScale (inverse f) limit limit 0 0 0 := by
    rw [HorizInst.taps, opened, if_pos hf, hlimit]
  obtain ⟨c, q, pos, k, hlast, hlen, -⟩ := upScale_spec (show 0 < inverse f by omega) hinv'
    limit (show 0 < 0x10000 by decide) (show Tracks (inverse f) 0 0 0 by simp [Tracks]) hpos
    (by omega)
  have hone : f = 0x10000 → limit = n := by
    rintro rfl
    rw [← hlimit, outPixels_one hn, Int.toNat_natCast]
  rw [← up_reads_iff hf hf' hlast hone, ← up_writes_iff hf hf' hlast imageType]
  rw [Nat.zero_add, ← htaps] at hlen
  constructor
  · intro hinside
    exact ⟨htaps ▸ hinside.reads, (row_writes_iff hlimit hpos hlen).mp hinside.writes⟩
  · rintro ⟨hreads, hwrites⟩
    refine ⟨htaps ▸ hreads, (row_writes_iff hlimit hpos hlen).mpr hwrites, ?_⟩
    rw [htaps]
    exact fun t ht x hx => (hlast.taps t ht x hx).2

theorem inside_fast_iff (hf : ¬ 0x10000 ≤ f) {limit : Nat}
    (hlimit : (outPixels f n).toNat = limit) (hpos : 0 < limit) :
    Inside (opened imageType true f n) n ↔ (limit - 1) * inverse f < 0x10000 * (n + 1) := by
  have htaps : (opened imageType true f n).taps
      = (List.range limit).map fun e => [(e * inverse f / 0x10000, 256)] := by
    rw [HorizInst.taps, opened, if_neg hf, if_pos rfl, hlimit, fastDown_eq _ _ _ (by decide)]
    simp only [Nat.zero_add]
  constructor
  · -- the last pixel is the one that reads the furthest
    intro hinside
    have hlast := hinside.reads _ (htaps ▸ List.mem_map_of_mem
      (List.mem_range.mpr (Nat.sub_one_lt (Nat.ne_of_gt hpos)))) _ List.mem_cons_self
    dsimp only at hlast
    lia
  · intro hroom
    refine ⟨?_, (row_writes_iff hlimit hpos rfl).mpr ?_, ?_⟩
    · rw [htaps]
      intro t ht x hx
      obtain ⟨e, he, rfl⟩ := List.mem_map.mp ht
      have hmul : e * inverse f ≤ (limit - 1) * inverse f :=
        Nat.mul_le_mul_right _ (Nat.le_sub_one_of_lt (List.mem_range.mp he))
      rw [List.mem_singleton.mp hx]
      dsimp only
      lia
    · rw [htaps, List.length_map, List.length_range]
      exact Nat.le_add_right _ _
    · rw [htaps]
      intro t ht x hx
      obtain ⟨e, -, rfl⟩ := List.mem_map.mp ht
      rw [List.mem_singleton.mp hx]

theorem inside_slow (hlow : 0x4000 ≤ f) (hf : ¬ 0x10000 ≤ f) {limit : Nat}
    (hlimit : (outPixels f n).toNat = limit) (hpos : 0 < limit) :
    Inside (opened imageType false f n) n := by
  obtain ⟨hlen, htap⟩ := slowDown_spec (f := f) (by lia) (by lia) limit 0 (Nat.le_refl f)
  have htaps : (opened imageType false f n).taps = slowDown f limit 0 f := by
    rw [HorizInst.taps, opened, if_neg hf, if_neg Bool.false_ne_true, hlimit]
  have hout := outPixels_le f n
  refine ⟨?_, (row_writes_iff hlimit hpos rfl).mpr ?_, ?_⟩
  · rw [htaps]
    intro t ht x hx
    have hpixel := (htap t ht x hx).1
    rw [Nat.zero_mul, Nat.zero_add, Nat.add_sub_cancel] at hpixel
    have hrow : x.1 * f ≤ n * f := by
      rw [Nat.mul_comm f n] at hout
      lia
    exact Nat.le_of_mul_le_mul_right hrow (by lia)
  · rw [htaps, hlen]
    exact Nat.le_add_right _ _
  · rw [htaps]
    exact fun t ht x hx => (htap t ht x hx).2

theorem taps_empty (h : (outPixels f n).toNat = 0) : (opened imageType fast f n).taps = [] := by
  rw [HorizInst.taps, opened, h]
  split
  · rfl
  · split <;> rfl

end Inside

/-- **Horizontal scaling.** The reads and the writes stay in their buffers exactly for the widths
and factors that fit; the weights are never more than one. -/
theorem inside_iff {imageType : ImType} {fast : Bool} {f n : Nat} {g : HorizInst}
    (hlow : 0x4000 ≤ f) (hhigh : f ≤ 0x60000)
    (h : contoneScaleOpen imageType fast f n = .ok g) :
    Inside g n ↔ Fits imageType fast f n := by
  obtain ⟨hn, rfl⟩ := contoneScaleOpen_eq h
  rw [Fits]
  generalize hlimit : (outPixels f n).toNat = limit
  rcases Nat.eq_zero_or_pos limit with rfl | hpos
  · exact iff_of_true (inside_empty (taps_empty hlimit)) (.inl rfl)
  rw [or_iff_right (Nat.ne_of_gt hpos)]
  by_cases hup : 0x10000 ≤ f
  · rw [if_pos hup]
    exact inside_up_iff hup hhigh hn hlimit hpos
  rw [if_neg hup]
  cases fast with
  | true =>
    rw [forall_prop_of_true rfl]
    exact inside_fast_iff hup hlimit hpos
  | false => exact iff_of_true (inside_slow hlow hup hlimit hpos) nofun

theorem inside_one_pixel :
    Inside ⟨.gray, true, 0x4000, 4, 1, 1, inverse 0x4000⟩ 4 ↔ Fits .gray true 0x4000 4 :=
  inside_iff (by decide) (by decide) rfl

/-- A row of 5462 pixels made six times as wide: the last pixel reads two pixels behind it. -/
theorem wide_row_overruns : ¬ ∀ (imageType : ImType) (fast : Bool) (f n : Nat) (g : HorizInst),
    1 ≤ n → 0x4000 ≤ f → f ≤ 0x60000 → contoneScaleOpen imageType fast f n = .ok g →
      Inside g n := by
  intro h
  have hinside := h .gray false 0x60000 5462 (opened .gray false 0x60000 5462) (by decide)
    (by decide) (Nat.le_refl _) rfl
  have hfits := (inside_up_iff (by decide) (Nat.le_refl _) (by decide)
    (show (outPixels 0x60000 5462).toNat = 32772 by decide) (by decide)).mp hinside
  revert hfits
  decide

end Hplip.Ip.HorizScale
