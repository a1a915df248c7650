import Hplip.Ip.ChangeBppTrip
import Hplip.Ip.RotateStrip

/-!
# The pixels of an upright row

Where an output row runs along a row of the strip, pixel by pixel, nothing is mixed: the fractions
are zero, and the pixels come out as they went in, whether they are packed or not.
-/

namespace Hplip.Ip.Rotate

open CInt Checked PackedRow Bits
open ChangeBpp (bitAt bitByte bilevelMasks bit_eq_bitAt thresholded thresholded_bits
  thresholded_length)

/-! ## Bilevel rows -/

section Bilevel

theorem getD_headD_tail (l : List UInt8) (k : Nat) :
    (l.headD 0 :: l.tail).getD k 0 = l.getD k 0 := by
  cases l with
  | nil => cases k <;> rfl
  | cons b l => rfl

theorem bitAt_cons (b : UInt8) (l : List UInt8) (i : Nat) : bitAt (b :: l) (8 + i) = bitAt l i := by
  unfold bitAt
  rw [Nat.add_mod_left, show (8 + i) / 8 = i / 8 + 1 by lia, List.getD_cons_succ]

theorem bitAt_headD (l : List UInt8) (i : Nat) : bitAt (l.headD 0 :: l.tail) i = bitAt l i := by
  unfold bitAt
  rw [getD_headD_tail]

theorem masks_shift : ∀ r < 8, bilevelMasks.getD r 0 ≠ 0 ∧
    bilevelMasks.getD r 0 >>> 1 = bilevelMasks.getD (r + 1) 0 := by
  decide

theorem expand_bit (inbyte : UInt8) (l : List UInt8) {r : Nat} (hr : r < 8) :
    (if inbyte &&& bilevelMasks.getD r 0 ≠ 0 then (0 : UInt8) else 255)
      = bitByte (bitAt (inbyte :: l) r) := by
  unfold bitByte bitAt
  rw [Nat.mod_eq_of_lt hr, Nat.div_eq_of_lt hr, List.getD_cons_zero, UInt8.and_comm]
  by_cases hbit : bilevelMasks.getD r 0 &&& inbyte ≠ 0
  · rw [if_pos hbit, decide_eq_true hbit, if_pos rfl]
  · rw [if_neg hbit, decide_eq_false hbit, if_neg Bool.false_ne_true]

theorem expandBilevelRow_from (n : Nat) {r : Nat} (hr : r ≤ 8) (inbyte : UInt8) (l : List UInt8) :
    expandBilevelRow n (bilevelMasks.getD r 0) inbyte l
      = (List.range n).map fun i => bitByte (bitAt (inbyte :: l) (r + i)) := by
  induction n generalizing r inbyte l with
  | zero => rfl
  | succ n ih =>
    rw [List.range_succ_eq_map, List.map_cons, List.map_map, Nat.add_zero]
    -- behind bit 7 the mask is empty, and the next byte is fetched
    rcases Nat.lt_or_eq_of_le hr with hless | rfl
    · obtain ⟨hne, hshift⟩ := masks_shift r hless
      rw [expandBilevelRow, if_neg hne]
      dsimp only
      rw [expand_bit inbyte l hless, hshift, ih hless]
      refine congrArg _ (List.map_congr_left fun i _ => ?_)
      rw [Function.comp_apply, Nat.succ_eq_add_one, Nat.add_assoc, Nat.add_comm 1]
    · have hzero : bilevelMasks.getD 8 0 = 0 := rfl
      have hfirst : (if l.headD 0 &&& 0x80 ≠ 0 then (0 : UInt8) else 255)
          = bitByte (bitAt (l.headD 0 :: l.tail) 0) := expand_bit (l.headD 0) l.tail (r := 0) (by decide)
      rw [expandBilevelRow, if_pos hzero]
      dsimp only
      rw [hfirst, bitAt_headD, show (0x80 : UInt8) >>> 1 = bilevelMasks.getD 1 0 from rfl,
        ih (by decide)]
      refine congr (congrArg _ ?_) (List.map_congr_left fun i _ => ?_)
      · rw [← bitAt_cons inbyte l 0]
      · rw [Function.comp_apply, bitAt_headD, Nat.succ_eq_add_one, bitAt_cons, Nat.add_comm 1]

/-- **A bilevel row in bytes.** -/
theorem expandBilevelRow_eq (n : Nat) (l : List UInt8) :
    expandBilevelRow n 0 0 l = (List.range n).map fun i => bitByte (bitAt l i) := by
  have hrow := expandBilevelRow_from n (Nat.le_refl 8) 0 l
  simp only [bitAt_cons] at hrow
  exact hrow

end Bilevel

/-! ## Rows of the strip -/

section Upright

variable {traits : IpImageTraits} {h s : Int} {g : Inst}

/-- Pixel `x` of a row of the strip. -/
def pixelOf (b : Nat) (row : List UInt8) (x : Nat) : List UInt8 :=
  (List.range b).map fun k => row.getD (x * b + k) 0

theorem interpolateByte_zero (g : Inst) (pSrc pNextRow : Int) :
    interpolateByte g pSrc pNextRow 0 0 = UInt8.ofNat (byteAt g pSrc) := by
  unfold interpolateByte
  dsimp only
  congr 1
  rw [Nat.shiftRight_eq_div_pow]
  lia

theorem byteAt_row (row : Int) {off : Nat}
    (hoff : (off : Int) < g.stripBytesPerRow) :
    byteAt g (row * g.stripBytesPerRow + off) = ((g.pStrip row).getD off 0).toNat := by
  obtain ⟨hdiv, hmod⟩ := row_of_address row (Int.natCast_nonneg off) hoff
  rw [byteAt, hdiv, hmod, Int.toNat_natCast]

theorem fraction_zero (v : Int) : (v * 0x10000 / 256 % 256).toNat = 0 := by
  have hsplit : v * 0x10000 = v * 256 * 256 := by ring
  rw [hsplit, Int.mul_ediv_cancel _ (by decide), Int.mul_emod_left]
  rfl

theorem outputPixel_upright (hg : Sized traits h s g)
    (htop : 0 ≤ g.stripIndexYTop ∧ g.stripIndexYTop < s) {x : Nat} {y : Int}
    (hx : (x : Int) < traits.iPixelsPerRow)
    (hy : 0 ≤ y - g.stripYTop ∧ y - g.stripYTop < g.stripRows - 1) :
    outputPixel g (x * 0x10000) (y * 0x10000) = .ok (pixelOf g.bytesPerPixel.toNat
      (g.pStrip (rowIndex g (y - g.stripYTop))) x) := by
  have hcol : (x : Int) * 0x10000 / 0x10000 = x := Int.mul_ediv_cancel _ (by decide)
  have hrow : y * 0x10000 / 0x10000 = y := Int.mul_ediv_cancel _ (by decide)
  have hy' : 0 ≤ y * 0x10000 / 0x10000 - g.stripYTop ∧
      y * 0x10000 / 0x10000 - g.stripYTop < g.stripRows - 1 := hrow.symm ▸ hy
  have hx' : 0 ≤ (x : Int) * 0x10000 / 0x10000 ∧
      (x : Int) * 0x10000 / 0x10000 < g.inTraits.iPixelsPerRow := by
    rw [hcol, hg.inTraits]
    exact ⟨Int.natCast_nonneg x, hx⟩
  have hinside := outputPixel_inside hg htop hy' hx'
  obtain ⟨b, hb⟩ : ∃ b : Nat, g.bytesPerPixel = b :=
    ⟨g.bytesPerPixel.toNat, (Int.toNat_of_nonneg (Int.le_of_lt hg.bytes_pos)).symm⟩
  obtain ⟨-, -, hend⟩ := hg.offset (Int.natCast_nonneg x) hx 0
  have hbytes (k : Nat) (hk : k < b) : UInt8.ofNat (byteAt g
      (rowIndex g (y - g.stripYTop) * g.stripBytesPerRow + x * g.bytesPerPixel + k))
        = (g.pStrip (rowIndex g (y - g.stripYTop))).getD (x * b + k) 0 := by
    have hoff : ((x * b + k : Nat) : Int) < g.stripBytesPerRow := by
      rw [hb] at hend
      push_cast
      lia
    have hat := byteAt_row (rowIndex g (y - g.stripYTop)) hoff
    rw [show rowIndex g (y - g.stripYTop) * g.stripBytesPerRow + x * g.bytesPerPixel + k
      = rowIndex g (y - g.stripYTop) * g.stripBytesPerRow + ((x * b + k : Nat) : Int) by
        rw [hb]; push_cast; ring, hat, UInt8.ofNat_toNat]
  dsimp only at hinside
  rw [hcol, hrow] at hinside
  rw [hinside, pixelBytes, if_pos hg.bytes_cases]
  rw [fraction_zero, fraction_zero, hb, Int.toNat_natCast, pixelOf]
  simp only [interpolateByte_zero, ite_self]
  refine congrArg Except.ok (List.map_congr_left fun k hk => ?_)
  have hbyte := hbytes k (List.mem_range.mp hk)
  rwa [hb] at hbyte

theorem outputPixels_upright (hdx : g.hSlopeDx = 0x10000) (hdy : g.hSlopeDy = 0) {ycur : Int}
    (hycur : IsInt ycur) (n : Nat) {x : Nat} (hend : x + n ≤ 32767) (f : Nat → List UInt8)
    (hf : ∀ i < x + n, outputPixel g (i * 0x10000) ycur = .ok (f i)) :
    outputPixels g n (x * 0x10000) ycur = .ok ((List.range n).map fun i => f (x + i)) := by
  induction n generalizing x with
  | zero => rfl
  | succ n ih =>
    have hnext : wrapAdd ((x : Int) * 0x10000) 0x10000 = ((x + 1 : Nat) : Int) * 0x10000 := by
      rw [wrapAdd_eq ⟨by lia, by lia⟩]
      push_cast
      ring
    have hsame : wrapAdd ycur 0 = ycur := by
      rw [wrapAdd_eq (by rwa [Int.add_zero]), Int.add_zero]
    have hrest := ih (x := x + 1) (by lia) fun i hi => hf i (by lia)
    rw [outputPixels, hf x (by lia), hdx, hdy, hnext, hsame]
    show (outputPixels g n _ _ >>= fun pixels => _) = _
    rw [hrest, List.range_succ_eq_map, List.map_cons, List.map_map]
    refine congrArg (fun l => Except.ok (f x :: l)) (List.map_congr_left fun i _ => ?_)
    rw [Function.comp_apply, Nat.succ_eq_add_one, Nat.add_assoc, Nat.add_comm 1]

end Upright

/-! ## Packing -/

section Packing

variable {traits : IpImageTraits} {h s : Int} {g : Inst}

theorem Sized.bits (hg : Sized traits h s g) (hdepth : traits.iBitsPerPixel ≠ 1) :
    traits.iBitsPerPixel.toNat = 8 * g.bytesPerPixel.toNat := by
  rw [hg.bytes]
  rcases hg.depth with hd | hd | hd
  · exact absurd hd hdepth
  · rw [hd]
    rfl
  · rw [hd]
    rfl

theorem Sized.bytes_one (hg : Sized traits h s g) (hdepth : traits.iBitsPerPixel = 1) :
    g.bytesPerPixel = 1 := by
  rw [hg.bytes, hdepth]
  rfl

section Row

variable {w : Nat} {f : Nat → List UInt8} (hf : ∀ i, (f i).length = g.bytesPerPixel.toNat)

include hf

theorem pixels_length : ∀ px ∈ (List.range w).map f, px.length = g.bytesPerPixel.toNat := by
  intro px hpx
  obtain ⟨i, -, rfl⟩ := List.mem_map.mp hpx
  exact hf i

theorem packRow_length (hg : Sized traits h s g) : (packRow g ((List.range w).map f)).length
    = bytesFor (traits.iBitsPerPixel.toNat * w) := by
  have hflat := flatten_length (pixels_length (w := w) hf)
  rw [List.length_map, List.length_range] at hflat
  rw [packRow, hg.inTraits]
  by_cases hdepth : traits.iBitsPerPixel = 1
  · rw [if_pos hdepth, thresholded_length, List.length_map, hflat, hg.bytes_one hdepth, hdepth]
  · rw [if_neg hdepth, hflat, hg.bits hdepth, bytesFor, Nat.mul_assoc]
    lia

theorem packRow_bit (hg : Sized traits h s g) (hdepth : traits.iBitsPerPixel = 1) {x : Nat}
    (hx : x < w) : bit (packRow g ((List.range w).map f)) x
      = some (decide (((f x).getD 0 0).toNat < 128)) := by
  have hlen := pixels_length (w := w) hf
  have hone : g.bytesPerPixel.toNat = 1 := by
    rw [hg.bytes_one hdepth]
    rfl
  rw [hone] at hlen
  have hflat := flatten_length hlen
  rw [List.length_map, List.length_range, Nat.one_mul] at hflat
  have hlt : x < ((List.range w).map f).length := by rwa [List.length_map, List.length_range]
  have hat := flatten_getD hlen hlt Nat.one_pos (0 : UInt8)
  rw [Nat.one_mul, Nat.add_zero, getD_map_range f [] hx] at hat
  have hget : ((List.range w).map f).flatten[x]? = some ((f x).getD 0 0) := by
    rw [← hat, List.getD_eq_getElem _ _ (by rwa [hflat]), List.getElem?_eq_getElem]
  rw [packRow, hg.inTraits, if_pos hdepth]
  obtain ⟨k, -, hbits⟩ := thresholded_bits (((List.range w).map f).flatten.map UInt8.toNat)
  have hx' : x < ((((List.range w).map f).flatten.map UInt8.toNat).map
      fun gray => decide (gray < 128)).length := by
    rwa [List.length_map, List.length_map, hflat]
  rw [bit, hbits, List.getElem?_append_left hx', List.getElem?_map, List.getElem?_map, hget]
  rfl

theorem packRow_byte (hg : Sized traits h s g) (hdepth : traits.iBitsPerPixel ≠ 1) {x j : Nat}
    (hx : x < w) (hj : j < g.bytesPerPixel.toNat) :
    (packRow g ((List.range w).map f)).getD (g.bytesPerPixel.toNat * x + j) 0
      = (f x).getD j 0 := by
  rw [packRow, hg.inTraits, if_neg hdepth, flatten_getD (pixels_length hf)
    (by rwa [List.length_map, List.length_range]) hj, getD_map_range f [] hx]

end Row

theorem bit_of_byte {b x j : Nat} {row : List UInt8} (hj : j < 8 * b)
    (hrow : b * x + b ≤ row.length) :
    bit row (8 * b * x + j) = some (decide (bilevelMasks.getD (j % 8) 0
      &&& row.getD (b * x + j / 8) 0 ≠ 0)) := by
  have hbyte : (8 * b * x + j) / 8 = b * x + j / 8 := by
    rw [Nat.mul_assoc]
    lia
  have hplace : (8 * b * x + j) % 8 = j % 8 := by
    rw [Nat.mul_assoc]
    lia
  rw [bit_eq_bitAt (by lia), bitAt, hbyte, hplace]

theorem stripRow_byte (hg : Sized traits h s g) (hdepth : traits.iBitsPerPixel ≠ 1)
    {buf : List UInt8} {i : Nat} (hi : (i : Int) < g.stripBytesPerRow) :
    (stripRow g buf).getD i 0 = buf.getD i 0 := by
  rw [stripRow, hg.inTraits, if_neg hdepth, List.getD_eq_getElem?_getD,
    List.getElem?_take_of_lt (by omega), List.getD_eq_getElem?_getD]

theorem stripRow_bit (hg : Sized traits h s g) (hdepth : traits.iBitsPerPixel = 1)
    {buf : List UInt8} {i : Nat} (hi : (i : Int) < traits.iPixelsPerRow) :
    (stripRow g buf).getD i 0 = bitByte (bitAt buf i) := by
  rw [stripRow, hg.inTraits, if_pos hdepth, expandBilevelRow_eq,
    getD_map_range _ _ (by lia)]

theorem bitByte_black (c : Bool) : decide ((bitByte c).toNat < 128) = c := by
  cases c <;> rfl

section Columns

variable {x₀ w x : Nat} {buf : List UInt8}

theorem pixelOf_length (b : Nat) (row : List UInt8) (x : Nat) : (pixelOf b row x).length = b := by
  rw [pixelOf, List.length_map, List.length_range]

theorem packRow_pixel_bilevel (hg : Sized traits h s g) (hdepth : traits.iBitsPerPixel = 1)
    (hbuf : bytesPerRow traits ≤ buf.length) (hw : (x₀ : Int) + w ≤ traits.iPixelsPerRow)
    (hx : x < w) :
    pixel traits.iBitsPerPixel.toNat (packRow g ((List.range w).map fun i =>
        pixelOf g.bytesPerPixel.toNat (stripRow g buf) (x₀ + i))) x
      = pixel traits.iBitsPerPixel.toNat buf (x₀ + x) := by
  have hone : g.bytesPerPixel.toNat = 1 := by
    rw [hg.bytes_one hdepth]
    rfl
  rw [bytesPerRow, hdepth] at hbuf
  rw [hdepth, pixel_eq_iff]
  intro j hj
  obtain rfl : j = 0 := Nat.lt_one_iff.mp hj
  -- expanded to a byte, and compared with the threshold again
  rw [show (1 : Int).toNat = 1 from rfl, Nat.one_mul, Nat.one_mul, Nat.add_zero, Nat.add_zero,
    packRow_bit (fun _ => pixelOf_length _ _ _) hg hdepth hx, hone, pixelOf,
    getD_map_range _ _ Nat.one_pos, Nat.mul_one, Nat.add_zero, stripRow_bit hg hdepth (by lia),
    bitByte_black, bit_eq_bitAt (by lia)]

theorem Sized.columns_within (hg : Sized traits h s g) (hdepth : traits.iBitsPerPixel ≠ 1) {b : Nat}
    (hb : g.bytesPerPixel = b) (hbuf : bytesPerRow traits ≤ buf.length)
    (hw : (x₀ : Int) + w ≤ traits.iPixelsPerRow) :
    ((w * b + x₀ * b : Nat) : Int) ≤ g.stripBytesPerRow ∧ w * b + x₀ * b ≤ buf.length := by
  have hbits : traits.iBitsPerPixel.toNat = 8 * b := by rw [hg.bits hdepth, hb, Int.toNat_natCast]
  have hbpp : traits.iBitsPerPixel = 8 * b := by
    have hdepths := hg.depth
    lia
  have hstrip : ((w * b + x₀ * b : Nat) : Int) ≤ g.stripBytesPerRow := by
    have hmul := Int.mul_le_mul_of_nonneg_right hw (Int.natCast_nonneg b)
    rw [hg.stripBytes, hb]
    push_cast
    linarith
  have hbytes : g.stripBytesPerRow ≤ buf.length := by
    rw [bytesPerRow, hbpp, show traits.iPixelsPerRow * (8 * (b : Int)) + 7
      = 7 + 8 * (traits.iPixelsPerRow * b) by ring] at hbuf
    rw [hg.stripBytes, hb]
    lia
  exact ⟨hstrip, by lia⟩

theorem packRow_pixel_bytes (hg : Sized traits h s g) (hdepth : traits.iBitsPerPixel ≠ 1)
    (hbuf : bytesPerRow traits ≤ buf.length) (hw : (x₀ : Int) + w ≤ traits.iPixelsPerRow)
    (hx : x < w) :
    pixel traits.iBitsPerPixel.toNat (packRow g ((List.range w).map fun i =>
        pixelOf g.bytesPerPixel.toNat (stripRow g buf) (x₀ + i))) x
      = pixel traits.iBitsPerPixel.toNat buf (x₀ + x) := by
  obtain ⟨b, hb⟩ : ∃ b : Nat, g.bytesPerPixel = b :=
    ⟨g.bytesPerPixel.toNat, (Int.toNat_of_nonneg (Int.le_of_lt hg.bytes_pos)).symm⟩
  have hb' : g.bytesPerPixel.toNat = b := by rw [hb, Int.toNat_natCast]
  have hbits : traits.iBitsPerPixel.toNat = 8 * b := by rw [hg.bits hdepth, hb']
  obtain ⟨hstrip, hlong⟩ := hg.columns_within hdepth hb hbuf hw
  have hlen (i : Nat) : (pixelOf g.bytesPerPixel.toNat (stripRow g buf) (x₀ + i)).length
      = g.bytesPerPixel.toNat := pixelOf_length _ _ _
  have hout := packRow_length (w := w) hlen hg
  rw [hbits, bytesFor, Nat.mul_assoc] at hout
  rw [hbits, pixel_eq_iff]
  intro j hj
  have hbyte : j / 8 < b := by lia
  have hrow : b * x + b ≤ b * w := by
    have hmul := Nat.mul_le_mul_left b (Nat.succ_le_of_lt hx)
    rwa [Nat.mul_succ] at hmul
  have hsrc : b * (x₀ + x) + b ≤ buf.length := by
    rw [Nat.mul_add, Nat.mul_comm b x₀]
    rw [Nat.mul_comm b w] at hrow
    lia
  have hpacked := packRow_byte hlen hg hdepth hx (hb'.symm ▸ hbyte)
  rw [bit_of_byte hj (by lia), bit_of_byte hj hsrc]
  rw [hb'] at hpacked ⊢
  rw [hpacked, pixelOf, getD_map_range _ _ hbyte, stripRow_byte hg hdepth (by
    rw [Nat.add_mul, Nat.mul_comm x]
    rw [Nat.mul_comm b w] at hrow
    push_cast at hstrip ⊢
    lia), Nat.mul_comm b]

/-- **The pixels of a packed row** are those of the input row, from a column on. -/
theorem packRow_pixel (hg : Sized traits h s g) (hbuf : bytesPerRow traits ≤ buf.length)
    (hw : (x₀ : Int) + w ≤ traits.iPixelsPerRow) (hx : x < w) :
    pixel traits.iBitsPerPixel.toNat (packRow g ((List.range w).map fun i =>
        pixelOf g.bytesPerPixel.toNat (stripRow g buf) (x₀ + i))) x
      = pixel traits.iBitsPerPixel.toNat buf (x₀ + x) := by
  by_cases hdepth : traits.iBitsPerPixel = 1
  · exact packRow_pixel_bilevel hg hdepth hbuf hw hx
  · exact packRow_pixel_bytes hg hdepth hbuf hw hx

end Columns

/-- **The pixels of a white row.** -/
theorem packRow_white (hg : Sized traits h s g) {w x : Nat} (hx : x < w) :
    pixel traits.iBitsPerPixel.toNat (packRow g ((List.range w).map fun _ =>
        List.replicate g.bytesPerPixel.toNat 255)) x
      = List.replicate traits.iBitsPerPixel.toNat (decide (traits.iBitsPerPixel ≠ 1)) := by
  have hlen (i : Nat) : ((fun _ : Nat => List.replicate g.bytesPerPixel.toNat (255 : UInt8)) i).length
      = g.bytesPerPixel.toNat := List.length_replicate
  refine List.ext_getElem? fun j => ?_
  by_cases hj : j < traits.iBitsPerPixel.toNat
  · rw [getElem?_pixel _ _ _ hj, List.getElem?_replicate_of_lt hj]
    by_cases hdepth : traits.iBitsPerPixel = 1
    · have hone : g.bytesPerPixel.toNat = 1 := by
        rw [hg.bytes_one hdepth]
        rfl
      rw [hdepth] at hj ⊢
      obtain rfl : j = 0 := Nat.lt_one_iff.mp hj
      rw [show (1 : Int).toNat = 1 from rfl, Nat.one_mul, Nat.add_zero,
        packRow_bit hlen hg hdepth hx, hone]
      rfl
    · have hbits := hg.bits hdepth
      have hout := packRow_length (w := w) hlen hg
      rw [hbits] at hj
      have hbyte : j / 8 < g.bytesPerPixel.toNat := by lia
      have hrow : g.bytesPerPixel.toNat * x + g.bytesPerPixel.toNat
          ≤ g.bytesPerPixel.toNat * w := by
        have hmul := Nat.mul_le_mul_left g.bytesPerPixel.toNat (Nat.succ_le_of_lt hx)
        rwa [Nat.mul_succ] at hmul
      rw [hbits, bytesFor, Nat.mul_assoc] at hout
      have hwhite : (List.replicate g.bytesPerPixel.toNat (255 : UInt8)).getD (j / 8) 0 = 255 := by
        rw [List.getD_eq_getElem?_getD, List.getElem?_replicate_of_lt hbyte]
        rfl
      have hmasks : ∀ r < 8, decide (bilevelMasks.getD r 0 &&& (255 : UInt8) ≠ 0) = true := by decide
      rw [hbits, bit_of_byte hj (by lia), packRow_byte hlen hg hdepth hx hbyte, hwhite,
        hmasks _ (Nat.mod_lt _ (by decide)), decide_eq_true hdepth]
  · rw [pixel, List.getElem?_take, if_neg hj, List.getElem?_replicate, if_neg hj]

end Packing

end Hplip.Ip.Rotate
