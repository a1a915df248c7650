import Hplip.Ip.Rotate
import Mathlib.Tactic.Linarith

/-!
# The strip of a rotation

Between two calls the strip is being filled or is full, and the rows that are addressed are rows of
the strip. A call loads a row, outputs one, does both, or gives up further input.
-/

namespace Hplip.Ip.Rotate

open CInt Checked

/-! ## Sizes -/

def bytesPerRow (traits : IpImageTraits) : Int :=
  (traits.iPixelsPerRow * traits.iBitsPerPixel + 7) / 8

/-- The sizes of a job that outputs `h` rows from a strip of `s` rows. -/
structure Sized (traits : IpImageTraits) (h s : Int) (g : Inst) : Prop where
  inTraits : g.inTraits = traits
  numRows : g.outTraits.lNumRows = h
  stripRows : g.stripRows = s
  width : 0 < traits.iPixelsPerRow
  depth : traits.iBitsPerPixel = 1 ∨ traits.iBitsPerPixel = 8 ∨ traits.iBitsPerPixel = 24
  bytes : g.bytesPerPixel = if traits.iBitsPerPixel = 24 then 3 else 1
  stripBytes : g.stripBytesPerRow = traits.iPixelsPerRow * g.bytesPerPixel
  size : g.stripSize = s * g.stripBytesPerRow
  inBytes : g.inBytesPerRow = bytesPerRow traits
  outBytes : 0 < g.outBytesPerRow
  minRows : 3 ≤ s
  height : 0 < h ∧ h ≤ 0x10000

/-- What holds between two calls. -/
structure Sound (traits : IpImageTraits) (h s : Int) (g : Inst) : Prop
    extends Sized traits h s g where
  loaded : 0 ≤ g.stripLoaded ∧ g.stripLoaded ≤ s
  top : 0 ≤ g.stripIndexYTop ∧ g.stripIndexYTop < s
  sent : (g.dwRowsSent.toNat : Int) ≤ h
  filling : g.stripLoaded < s → g.dwRowsSent = 0
  bottom : ¬ allSent g → -1 ≤ g.stripYBottom
  yLeft : IsInt g.yLeft
  yRight : IsInt g.yRight

section Sizes

variable {traits : IpImageTraits} {h s : Int} {g : Inst}

theorem Sized.bytes_pos (hg : Sized traits h s g) : 0 < g.bytesPerPixel := by
  rw [hg.bytes]
  split <;> decide

theorem Sized.inBytes_pos (hg : Sized traits h s g) : 0 < g.inBytesPerRow := by
  have hwidth := hg.width
  rw [hg.inBytes, bytesPerRow]
  rcases hg.depth with hd | hd | hd <;> rw [hd] <;> lia

theorem Sized.bytes_cases (hg : Sized traits h s g) :
    g.bytesPerPixel = 3 ∨ g.bytesPerPixel = 1 := by
  rw [hg.bytes]
  split
  · exact .inl rfl
  · exact .inr rfl

theorem Sized.rowBytes_pos (hg : Sized traits h s g) : 0 < g.stripBytesPerRow := by
  rw [hg.stripBytes]
  exact Int.mul_pos hg.width hg.bytes_pos

theorem row_of_address {b off : Int} (row : Int) (h₀ : 0 ≤ off) (hb : off < b) :
    (row * b + off) / b = row ∧ (row * b + off) % b = off := by
  rw [Int.ediv_emod_unique (Int.lt_of_le_of_lt h₀ hb)]
  exact ⟨by ring, h₀, hb⟩

theorem Sized.offset (hg : Sized traits h s g) {x : Int} (h₀ : 0 ≤ x)
    (hx : x < traits.iPixelsPerRow) (row : Int) :
    (row * g.inTraits.iPixelsPerRow + x) * g.bytesPerPixel
        = row * g.stripBytesPerRow + x * g.bytesPerPixel ∧
      0 ≤ x * g.bytesPerPixel ∧ x * g.bytesPerPixel + g.bytesPerPixel ≤ g.stripBytesPerRow := by
  have hpos := hg.bytes_pos
  rw [hg.stripBytes, hg.inTraits]
  refine ⟨by ring, Int.mul_nonneg h₀ (Int.le_of_lt hpos), ?_⟩
  have hmul := Int.mul_le_mul_of_nonneg_right (show x + 1 ≤ traits.iPixelsPerRow from hx)
    (Int.le_of_lt hpos)
  rw [Int.add_mul, Int.one_mul] at hmul
  exact hmul

theorem rowAt_ok {row : Int} (h₀ : 0 ≤ row) (hrow : row < g.stripRows) : rowAt g row = .ok row := by
  rw [rowAt, require_pos ⟨h₀, hrow⟩]
  rfl

theorem pixelBytes_ok (hg : Sized traits h s g) (pSrc pNextRow xcur ycur : Int) :
    ∃ px, pixelBytes g pSrc pNextRow xcur ycur = .ok px ∧ px.length = g.bytesPerPixel.toNat := by
  rw [pixelBytes, if_pos hg.bytes_cases]
  refine ⟨_, rfl, ?_⟩
  split
  · rw [List.length_map, List.length_range]
  · rw [List.length_map, List.length_range]

def rowIndex (g : Inst) (yint : Int) : Int :=
  if g.stripRows ≤ yint + g.stripIndexYTop then yint + g.stripIndexYTop - g.stripRows
  else yint + g.stripIndexYTop

def nextRowOf (g : Inst) (pSrc : Int) : Int :=
  if g.stripSize ≤ pSrc + g.stripBytesPerRow then pSrc + g.stripBytesPerRow - g.stripSize
  else pSrc + g.stripBytesPerRow

theorem outputPixel_inside (hg : Sized traits h s g)
    (htop : 0 ≤ g.stripIndexYTop ∧ g.stripIndexYTop < s) {xcur ycur : Int}
    (hy : 0 ≤ ycur / 0x10000 - g.stripYTop ∧ ycur / 0x10000 - g.stripYTop < g.stripRows - 1)
    (hx : 0 ≤ xcur / 0x10000 ∧ xcur / 0x10000 < g.inTraits.iPixelsPerRow) :
    let pSrc := rowIndex g (ycur / 0x10000 - g.stripYTop) * g.stripBytesPerRow
      + xcur / 0x10000 * g.bytesPerPixel
    outputPixel g xcur ycur = pixelBytes g pSrc (nextRowOf g pSrc) xcur ycur := by
  have hrows := hg.stripRows
  have hx' := hx.2
  rw [hg.inTraits] at hx'
  generalize hyint : ycur / 0x10000 - g.stripYTop = yint at hy ⊢
  have hindex : 0 ≤ rowIndex g yint ∧ rowIndex g yint < g.stripRows := by
    unfold rowIndex
    split <;> lia
  obtain ⟨haddr, hoff, hend⟩ := hg.offset hx.1 hx' (rowIndex g yint)
  have hpos := hg.bytes_pos
  have hnext : 0 ≤ nextRowOf g (rowIndex g yint * g.stripBytesPerRow
        + xcur / 0x10000 * g.bytesPerPixel) / g.stripBytesPerRow ∧
      nextRowOf g (rowIndex g yint * g.stripBytesPerRow
        + xcur / 0x10000 * g.bytesPerPixel) / g.stripBytesPerRow < g.stripRows := by
    have hafter : rowIndex g yint * g.stripBytesPerRow + xcur / 0x10000 * g.bytesPerPixel
        + g.stripBytesPerRow = (rowIndex g yint + 1) * g.stripBytesPerRow
          + xcur / 0x10000 * g.bytesPerPixel := by ring
    rw [nextRowOf, hafter, hg.size, ← hrows]
    split
    · rename_i hwrap
      -- Beyond the end there is one row only, whose number is that of the strip's rows.
      have hlast : rowIndex g yint + 1 = g.stripRows := by
        by_contra hne
        have hle : rowIndex g yint + 1 ≤ g.stripRows - 1 := by lia
        have hmul := Int.mul_le_mul_of_nonneg_right hle (Int.le_of_lt hg.rowBytes_pos)
        rw [Int.sub_mul, Int.one_mul] at hmul
        lia
      rw [hlast, add_sub_cancel_left, Int.ediv_eq_zero_of_lt hoff (by lia)]
      lia
    · rename_i hwrap
      have hlast : rowIndex g yint + 1 ≠ g.stripRows := by
        intro heq
        rw [heq] at hwrap
        lia
      rw [(row_of_address _ hoff (by lia)).1]
      lia
  unfold outputPixel
  rw [hyint, if_pos ⟨hy, hx⟩]
  show (rowAt g (rowIndex g yint) >>= fun rowIndex => _) = _
  rw [rowAt_ok hindex.1 hindex.2]
  show (rowAt g (nextRowOf g ((rowIndex g yint * g.inTraits.iPixelsPerRow + xcur / 0x10000)
    * g.bytesPerPixel) / g.stripBytesPerRow) >>= fun _ => _) = _
  rw [haddr, rowAt_ok hnext.1 hnext.2]
  rfl

theorem outputPixel_ok (hg : Sized traits h s g)
    (htop : 0 ≤ g.stripIndexYTop ∧ g.stripIndexYTop < s) (xcur ycur : Int) :
    ∃ px, outputPixel g xcur ycur = .ok px ∧ px.length = g.bytesPerPixel.toNat := by
  by_cases hin : (0 ≤ ycur / 0x10000 - g.stripYTop ∧
      ycur / 0x10000 - g.stripYTop < g.stripRows - 1) ∧
        0 ≤ xcur / 0x10000 ∧ xcur / 0x10000 < g.inTraits.iPixelsPerRow
  · have hpixel := outputPixel_inside hg htop hin.1 hin.2
    dsimp only at hpixel
    rw [hpixel]
    exact pixelBytes_ok hg _ _ _ _
  · refine ⟨_, if_neg hin, ?_⟩
    rw [List.length_replicate]

/-- **The pixels of a row** are made without leaving the strip. -/
theorem outputPixels_ok (hg : Sized traits h s g)
    (htop : 0 ≤ g.stripIndexYTop ∧ g.stripIndexYTop < s) (n : Nat) (xcur ycur : Int) :
    ∃ pxs, outputPixels g n xcur ycur = .ok pxs := by
  induction n generalizing xcur ycur with
  | zero => exact ⟨[], rfl⟩
  | succ n ih =>
    obtain ⟨px, hpx, -⟩ := outputPixel_ok hg htop xcur ycur
    obtain ⟨pxs, hpxs⟩ := ih (wrapAdd xcur g.hSlopeDx) (wrapAdd ycur g.hSlopeDy)
    refine ⟨px :: pxs, ?_⟩
    rw [outputPixels, hpx]
    show (outputPixels g n _ _ >>= fun pixels => _) = _
    rw [hpxs]
    rfl

end Sizes

/-! ## Loading -/

section Loading

variable {traits : IpImageTraits} {h s : Int} {g g' : Inst} {input : Option (List UInt8)}

/-- What `replicateFirst` leaves. -/
def doubled (g : Inst) : Inst :=
  if g.stripLoaded = 1 then countLoaded (putRow g 1 (g.pStrip 0)) else g

def filled (g : Inst) (input : Option (List UInt8)) (bytes : List UInt8) : Inst :=
  useInput (doubled (countLoaded (putRow g g.stripLoaded bytes))) input

theorem doubled_first (hfirst : g.stripLoaded = 1) :
    doubled g = countLoaded (putRow g 1 (g.pStrip 0)) := if_pos hfirst

theorem doubled_later (hfirst : g.stripLoaded ≠ 1) : doubled g = g := if_neg hfirst

theorem replicateFirst_ok (hrows : 3 ≤ g.stripRows) : replicateFirst g = .ok (doubled g) := by
  unfold replicateFirst doubled
  split
  · rw [rowAt_ok (by omega) (by omega)]
    rfl
  · rfl

theorem loadInitial_ok (hg : Sound traits h s g) (hfill : g.stripLoaded < s) {bytes : List UInt8}
    (hrow : initialRow g input = .ok bytes) : loadInitial g input = .ok (filled g input bytes) := by
  have hrows := hg.stripRows
  have hmin := hg.minRows
  rw [loadInitial, rowAt_ok hg.loaded.1 (by omega), hrow]
  have hfirst : replicateFirst (countLoaded (putRow g g.stripLoaded bytes)) = .ok _ :=
    replicateFirst_ok (show 3 ≤ g.stripRows by omega)
  show (replicateFirst (countLoaded (putRow g g.stripLoaded bytes)) >>= fun g => _) = _
  rw [hfirst]
  rfl

theorem initialRow_flush (hg : Sound traits h s g) (hdepth : traits.iBitsPerPixel ≠ 1)
    (hfill : g.stripLoaded < s) (hpos : 1 ≤ g.stripLoaded) :
    initialRow g none = .ok (g.pStrip (g.stripLoaded - 1)) := by
  have hrows := hg.stripRows
  rw [initialRow, hg.inTraits, require_pos hdepth]
  show (rowAt g (g.stripLoaded - 1) >>= fun row => _) = _
  rw [rowAt_ok (by omega) (by omega)]
  rfl

theorem loadInitial_null (hg : Sound traits h s g) (hdepth : traits.iBitsPerPixel = 1)
    (hfill : g.stripLoaded < s) : loadInitial g none = .error .nullInput := by
  have hrows := hg.stripRows
  rw [loadInitial, rowAt_ok hg.loaded.1 (by omega)]
  show (initialRow g none >>= fun bytes => _) = _
  rw [initialRow, hg.inTraits, require_neg (fun hne => hne hdepth)]
  rfl

theorem filled_loaded (g : Inst) (input : Option (List UInt8)) (bytes : List UInt8) :
    (filled g input bytes).stripLoaded
        = (if g.stripLoaded = 0 then 2 else g.stripLoaded + 1) ∧
      (filled g input bytes).stripYBottom
        = g.stripYBottom + (if g.stripLoaded = 0 then 2 else 1) := by
  by_cases hfirst : g.stripLoaded = 0
  · have hone : (countLoaded (putRow g g.stripLoaded bytes)).stripLoaded = 1 :=
      show g.stripLoaded + 1 = 1 by omega
    rw [filled, doubled_first hone, if_pos hfirst, if_pos hfirst]
    refine ⟨?_, ?_⟩
    · show g.stripLoaded + 1 + 1 = 2
      omega
    · show g.stripYBottom + 1 + 1 = g.stripYBottom + 2
      omega
  · have hmore : (countLoaded (putRow g g.stripLoaded bytes)).stripLoaded ≠ 1 :=
      show g.stripLoaded + 1 ≠ 1 by omega
    rw [filled, doubled_later hmore, if_neg hfirst, if_neg hfirst]
    exact ⟨rfl, rfl⟩

theorem useInput_sound (hg : Sound traits h s g) : Sound traits h s (useInput g input) := { hg with }

theorem countLoaded_sound (hg : Sound traits h s g) (hfill : g.stripLoaded < s) (row : Int)
    (bytes : List UInt8) : Sound traits h s (countLoaded (putRow g row bytes)) := by
  refine { hg with loaded := ?_, filling := ?_, bottom := ?_ }
  · have hloaded := hg.loaded
    show 0 ≤ g.stripLoaded + 1 ∧ g.stripLoaded + 1 ≤ s
    omega
  · intro _
    exact hg.filling hfill
  · intro hmore
    have hbottom := hg.bottom hmore
    show -1 ≤ g.stripYBottom + 1
    omega

theorem doubled_sound (hg : Sound traits h s g) : Sound traits h s (doubled g) := by
  by_cases hfirst : g.stripLoaded = 1
  · have hmin := hg.minRows
    rw [doubled_first hfirst]
    exact countLoaded_sound hg (by omega) _ _
  · rw [doubled_later hfirst]
    exact hg

theorem filled_sound (hg : Sound traits h s g) (hfill : g.stripLoaded < s) (bytes : List UInt8) :
    Sound traits h s (filled g input bytes) :=
  useInput_sound (doubled_sound (countLoaded_sound hg hfill _ bytes))

theorem loadNext_ok (hg : Sound traits h s g) (input : Option (List UInt8)) :
    loadNext g input
      = .ok (useInput (scrolled (putRow g g.stripIndexYTop (nextRow g input))) input) := by
  have hrows := hg.stripRows
  have htop := hg.top
  rw [loadNext, rowAt_ok htop.1 (by omega)]
  rfl

theorem scrolled_sound (hg : Sound traits h s g) (hfull : s ≤ g.stripLoaded) (bytes : List UInt8) :
    Sound traits h s (useInput (scrolled (putRow g g.stripIndexYTop bytes)) input) := by
  have hmin := hg.minRows
  have hrows : g.stripRows = s := hg.stripRows
  refine { hg with top := ?_, filling := ?_, bottom := ?_ }
  · show 0 ≤ (g.stripIndexYTop + 1) % g.stripRows ∧ (g.stripIndexYTop + 1) % g.stripRows < s
    exact ⟨Int.emod_nonneg _ (by omega), hrows ▸ Int.emod_lt_of_pos _ (by omega)⟩
  · intro hless
    exact absurd hless (Int.not_lt.mpr hfull)
  · intro hmore
    have hbottom := hg.bottom hmore
    show -1 ≤ g.stripYBottom + 1
    omega

end Loading

/-! ## Calls -/

inductive Finished (g : Inst) : Option (List UInt8) → Inst → Prop
  | discards : allSent g → Finished g none { g with stripYBottom := -100000 }
  | sends {pxs : List (List UInt8)} : ¬ allSent g → ¬ needMore g →
      outputPixels g g.outTraits.iPixelsPerRow.toNat g.xLeft g.yLeft = .ok pxs →
      Finished g (some (packRow g pxs)) (sentRow g)
  | waits : ¬ allSent g → needMore g → Finished g none g

inductive Call (g : Inst) (input : Option (List UInt8)) : Option (List UInt8) → Inst → Prop
  | fills {bytes : List UInt8} : g.stripLoaded < g.stripRows → initialRow g input = .ok bytes →
      Call g input none (filled g input bytes)
  | loads {out : Option (List UInt8)} {g' : Inst} : g.stripRows ≤ g.stripLoaded → needMore g →
      Finished (useInput (scrolled (putRow g g.stripIndexYTop (nextRow g input))) input) out g' →
      Call g input out g'
  | goesOn {out : Option (List UInt8)} {g' : Inst} : g.stripRows ≤ g.stripLoaded → ¬ needMore g →
      Finished g out g' → Call g input out g'

/-- The calls that take a row if they are given one. -/
def Takes (g : Inst) : Prop := g.stripLoaded < g.stripRows ∨ needMore g

section Calls

variable {traits : IpImageTraits} {h s : Int} {g g' : Inst} {input out : Option (List UInt8)}

theorem sentRow_sent (hg : Sound traits h s g) :
    (sentRow g).dwRowsSent.toNat = g.dwRowsSent.toNat + 1 := by
  have hheight := hg.height
  have hsent := hg.sent
  have hnum := hg.numRows
  show (g.dwRowsSent + 1).toNat = _
  rw [UInt32.toNat_add, UInt32.toNat_one, Nat.mod_eq_of_lt (by lia)]

theorem sentRow_sound (hg : Sound traits h s g) (hfull : s ≤ g.stripLoaded)
    (hmore : ¬ allSent g) : Sound traits h s (sentRow g) := by
  refine { hg with sent := ?_, filling := ?_, bottom := ?_, yLeft := ?_, yRight := ?_ }
  · have hnum := hg.numRows
    rw [sentRow_sent hg]
    unfold allSent at hmore
    omega
  · exact fun hless => absurd hless (Int.not_lt.mpr hfull)
  · exact fun _ => hg.bottom hmore
  · exact isInt_wrapAdd _ _
  · exact isInt_wrapAdd _ _

theorem Finished.sound (hf : Finished g out g') (hg : Sound traits h s g)
    (hfull : s ≤ g.stripLoaded) : Sound traits h s g' := by
  cases hf with
  | discards hall => exact { hg with bottom := fun hmore => absurd hall hmore }
  | sends hleft _ _ => exact sentRow_sound hg hfull hleft
  | waits => exact hg

theorem Call.sound (hc : Call g input out g') (hg : Sound traits h s g) : Sound traits h s g' := by
  have hrows := hg.stripRows
  cases hc with
  | fills hfill _ => exact filled_sound hg (by omega) _
  | loads hfull _ hf => exact hf.sound (scrolled_sound hg (by omega) _) (by rw [← hrows]; exact hfull)
  | goesOn hfull _ hf => exact hf.sound hg (by omega)

theorem finish_ok (hg : Sound traits h s g) :
    ∃ out g', finish g g.outBytesPerRow = .ok (out, g') ∧ Finished g out g' := by
  rw [finish]
  by_cases hall : allSent g
  · rw [if_pos hall]
    exact ⟨none, _, rfl, .discards hall⟩
  rw [if_neg hall]
  by_cases hmore : needMore g
  · rw [if_neg (fun hn => hn hmore)]
    exact ⟨none, g, rfl, .waits hall hmore⟩
  · obtain ⟨pxs, hpxs⟩ := outputPixels_ok hg.toSized hg.top g.outTraits.iPixelsPerRow.toNat
      g.xLeft g.yLeft
    rw [if_pos hmore, outputRow, require_pos (Int.le_refl _)]
    refine ⟨some (packRow g pxs), sentRow g, ?_, .sends hall hmore hpxs⟩
    show ((outputPixels g g.outTraits.iPixelsPerRow.toNat g.xLeft g.yLeft >>= fun pixels =>
      Except.ok (packRow g pixels, sentRow g)) >>= fun r => _) = _
    rw [hpxs]
    rfl

theorem has_flags (p q r : Prop) [Decidable p] [Decidable q] [Decidable r] :
    let result := flag p ipConsumedRow ||| flag q ipProducedRow ||| flag r ipReadyForData
    ¬ Has result ipDone ∧ (Has result ipConsumedRow ↔ p) ∧ (Has result ipProducedRow ↔ q) := by
  unfold flag
  by_cases hp : p <;> by_cases hq : q <;> by_cases hr : r <;> simp only [hp, hq, hr, if_true, if_false] <;>
    decide

structure Answers (g : Inst) (input : Option (List UInt8)) (c : Converted) : Prop where
  notDone : ¬ Has c.result ipDone
  consumed : Has c.result ipConsumedRow ↔ input.isSome = true ∧ Takes g
  produced : Has c.result ipProducedRow ↔ c.outBuf.isSome = true

theorem convert_fills (hg : Sound traits h s g) (hfill : g.stripLoaded < g.stripRows)
    (hlast : ¬ (input = none ∧ allSent g)) (hlen : g.inBytesPerRow ≤ inputAvail g input)
    {bytes : List UInt8} (hrow : initialRow g input = .ok bytes) :
    ∃ c, convert g input g.outBytesPerRow = .ok (c, filled g input bytes) ∧ c.outBuf = none ∧
      Answers g input c := by
  have hin := hg.inBytes_pos
  have hload := loadInitial_ok hg (hg.stripRows ▸ hfill) hrow
  rw [convert, if_neg hlast, if_neg (fun hzero => by omega), if_pos hfill, require_pos hlen]
  show ∃ c, (loadInitial g input >>= fun g' => _) = _ ∧ _
  rw [hload]
  cases input with
  | none => exact ⟨_, rfl, rfl, by simp, by simp, by simp⟩
  | some buf =>
    refine ⟨_, rfl, rfl, ?_, ?_, ?_⟩
    · show ¬ Has (flag _ ipReadyForData ||| ipConsumedRow) ipDone
      unfold flag
      split <;> decide
    · refine iff_of_true ?_ ⟨rfl, .inl hfill⟩
      show Has (flag _ ipReadyForData ||| ipConsumedRow) ipConsumedRow
      unfold flag
      split <;> decide
    · refine iff_of_false ?_ nofun
      show ¬ Has (flag _ ipReadyForData ||| ipConsumedRow) ipProducedRow
      unfold flag
      split <;> decide

/-- **Step lemma.** A call that is not the last one is answered. -/
theorem convert_call (hg : Sound traits h s g) (hlast : ¬ (input = none ∧ allSent g))
    (hlen : g.inBytesPerRow ≤ inputAvail g input)
    (hrow : g.stripLoaded < g.stripRows → ∃ bytes, initialRow g input = .ok bytes) :
    ∃ c g', convert g input g.outBytesPerRow = .ok (c, g') ∧ Call g input c.outBuf g' ∧
      Answers g input c := by
  have hin := hg.inBytes_pos
  have hout := hg.outBytes
  by_cases hfill : g.stripLoaded < g.stripRows
  · obtain ⟨bytes, hbytes⟩ := hrow hfill
    obtain ⟨c, hconvert, hnone, hanswers⟩ := convert_fills hg hfill hlast hlen hbytes
    exact ⟨c, _, hconvert, by rw [hnone]; exact .fills hfill hbytes, hanswers⟩
  have hfull : g.stripRows ≤ g.stripLoaded := Int.not_lt.mp hfill
  rw [convert, if_neg hlast, if_neg (fun hzero => by omega), if_neg hfill]
  -- a full strip scrolls if the row to be output is not in it
  by_cases hmore : needMore g
  · have hg₁ : Sound traits h s
        (useInput (scrolled (putRow g g.stripIndexYTop (nextRow g input))) input) :=
      scrolled_sound hg (hg.stripRows ▸ hfull) _
    obtain ⟨out, g', hfinish, hf⟩ := finish_ok hg₁
    have hload := loadNext_ok hg input
    simp only [hmore, decide_true, if_true, require_pos hlen]
    show ∃ c g', ((loadNext g input) >>= fun g₁ => finish g₁ g.outBytesPerRow >>= fun r => _) = _ ∧ _
    rw [hload]
    show ∃ c g', (finish _ g.outBytesPerRow >>= fun r => _) = _ ∧ _
    rw [show finish _ g.outBytesPerRow = .ok (out, g') from hfinish]
    refine ⟨_, g', rfl, .loads hfull hmore hf, ?_⟩
    obtain ⟨hdone, hconsumed, hproduced⟩ := has_flags
      ((if True ∧ input.isSome = true then g.inBytesPerRow else 0) ≠ 0)
      (out.isSome = true ∧ g.outBytesPerRow ≠ 0) (needMore g')
    refine ⟨hdone, hconsumed.trans ?_, hproduced.trans (and_iff_left (by omega))⟩
    by_cases hsome : input.isSome = true
    · rw [if_pos ⟨trivial, hsome⟩]
      exact iff_of_true (by omega) ⟨hsome, .inr hmore⟩
    · rw [if_neg (fun hboth => hsome hboth.2)]
      exact iff_of_false (fun hne => hne rfl) fun hboth => hsome hboth.1
  · obtain ⟨out, g', hfinish, hf⟩ := finish_ok hg
    simp only [hmore, decide_false, Bool.false_eq_true, if_false, false_and]
    show ∃ c g'', (finish g g.outBytesPerRow >>= fun r => _) = _ ∧ _
    rw [hfinish]
    refine ⟨_, g', rfl, .goesOn hfull hmore hf, ?_⟩
    obtain ⟨hdone, hconsumed, hproduced⟩ := has_flags ((0 : Int) ≠ 0)
      (out.isSome = true ∧ g.outBytesPerRow ≠ 0) (needMore g')
    refine ⟨hdone, hconsumed.trans ?_, hproduced.trans (and_iff_left (by omega))⟩
    exact iff_of_false (fun hne => hne rfl) fun hboth => hboth.2.elim hfill hmore

theorem filled_sent (g : Inst) (input : Option (List UInt8)) (bytes : List UInt8) :
    (filled g input bytes).dwRowsSent = g.dwRowsSent := by
  show (doubled (countLoaded (putRow g g.stripLoaded bytes))).dwRowsSent = g.dwRowsSent
  by_cases hfirst : (countLoaded (putRow g g.stripLoaded bytes)).stripLoaded = 1
  · rw [doubled_first hfirst]
    simp only [countLoaded, putRow]
  · rw [doubled_later hfirst]
    simp only [countLoaded, putRow]

theorem allSent_iff (hg : Sized traits h s g) : allSent g ↔ h ≤ g.dwRowsSent.toNat := by
  rw [allSent, hg.numRows]

theorem Finished.counts (hf : Finished g out g') (hg : Sound traits h s g) :
    g'.dwRowsSent.toNat = g.dwRowsSent.toNat + out.toList.length ∧
      g'.stripLoaded = g.stripLoaded := by
  cases hf with
  | discards => exact ⟨rfl, rfl⟩
  | sends => exact ⟨sentRow_sent hg, rfl⟩
  | waits => exact ⟨rfl, rfl⟩

theorem Call.counts (hc : Call g input out g') (hg : Sound traits h s g) :
    g'.dwRowsSent.toNat = g.dwRowsSent.toNat + out.toList.length ∧
      g'.stripLoaded = if g.stripLoaded < s then
        (if g.stripLoaded = 0 then 2 else g.stripLoaded + 1) else g.stripLoaded := by
  have hrows := hg.stripRows
  cases hc with
  | fills hfill _ =>
    rw [if_pos (by omega)]
    exact ⟨congrArg UInt32.toNat (filled_sent g input _), (filled_loaded g input _).1⟩
  | loads hfull _ hf =>
    rw [if_neg (by omega)]
    exact hf.counts (scrolled_sound hg (by omega) _)
  | goesOn hfull _ hf =>
    rw [if_neg (by omega)]
    exact hf.counts hg

/-! ## Progress -/

theorem needMore_bottom (hg : Sound traits h s g) (hmore : needMore g) :
    g.stripYBottom ≤ 32767 := by
  have hleft := hg.yLeft.2
  have hright := hg.yRight.2
  rcases hmore with hmore | hmore <;> lia

theorem needMore_of_low (hg : Sound traits h s g) (hlow : g.stripYBottom < -32768) :
    needMore g := by
  have hleft := hg.yLeft.1
  exact .inl (by lia)

def feedRank (h : Int) (g : Inst) : Nat :=
  (h - g.dwRowsSent.toNat).toNat + if g.stripYBottom < -32768 then 0 else 1

theorem feedRank_le (g : Inst) : feedRank h g ≤ h.toNat + 1 := by
  unfold feedRank
  split <;> lia

theorem Call.feedRank_lt (hc : Call g input out g') (hg : Sound traits h s g) (hnot : ¬ Takes g) :
    feedRank h g' < feedRank h g := by
  have hbottom : ¬ g.stripYBottom < -32768 := fun hlow => hnot (.inr (needMore_of_low hg hlow))
  cases hc with
  | fills hfill _ => exact absurd (.inl hfill) hnot
  | loads _ hmore _ => exact absurd (.inr hmore) hnot
  | goesOn _ hmore hf =>
    cases hf with
    | discards hall =>
      have hsent := hg.sent
      have hall' := (allSent_iff hg.toSized).mp hall
      show (h - g.dwRowsSent.toNat).toNat + (if (-100000 : Int) < -32768 then 0 else 1) < feedRank h g
      rw [feedRank, if_pos (by decide), if_neg hbottom]
      lia
    | sends hleft _ _ =>
      have hsend := sentRow_sent hg
      have hleft' := mt (allSent_iff hg.toSized).mpr hleft
      show (h - (sentRow g).dwRowsSent.toNat).toNat
        + (if g.stripYBottom < -32768 then 0 else 1) < feedRank h g
      rw [feedRank, if_neg hbottom, hsend]
      lia
    | waits _ hwait => exact absurd hwait hmore

def flushRank (h s : Int) (g : Inst) : Nat :=
  (s - g.stripLoaded).toNat + (32768 - g.stripYBottom).toNat + (h - g.dwRowsSent.toNat).toNat

theorem Finished.flushRank_le (hf : Finished g out g') (hg : Sound traits h s g)
    (hleft : ¬ allSent g) : flushRank h s g' ≤ flushRank h s g ∧
      (¬ needMore g → flushRank h s g' < flushRank h s g) := by
  cases hf with
  | discards hall => exact absurd hall hleft
  | sends _ _ _ =>
    have hsend := sentRow_sent hg
    have hleft' := mt (allSent_iff hg.toSized).mpr hleft
    have hless : flushRank h s (sentRow g) < flushRank h s g := by
      show (s - g.stripLoaded).toNat + (32768 - g.stripYBottom).toNat
        + (h - (sentRow g).dwRowsSent.toNat).toNat < flushRank h s g
      rw [flushRank, hsend]
      lia
    exact ⟨Nat.le_of_lt hless, fun _ => hless⟩
  | waits _ hmore => exact ⟨Nat.le_refl _, fun hn => absurd hmore hn⟩

theorem Call.flushRank_lt (hc : Call g input out g') (hg : Sound traits h s g)
    (hleft : ¬ allSent g) : flushRank h s g' < flushRank h s g := by
  have hrows := hg.stripRows
  cases hc with
  | fills hfill _ =>
    obtain ⟨hloaded, hbottom⟩ := filled_loaded g input _
    rw [flushRank, flushRank, hloaded, hbottom, filled_sent]
    split <;> lia
  | loads hfull hmore hf =>
    have hbottom := needMore_bottom hg hmore
    refine Nat.lt_of_le_of_lt (hf.flushRank_le (scrolled_sound hg (by lia) _) hleft).1 ?_
    show (s - g.stripLoaded).toNat + (32768 - (g.stripYBottom + 1)).toNat
      + (h - g.dwRowsSent.toNat).toNat < flushRank h s g
    rw [flushRank]
    lia
  | goesOn _ hmore hf => exact (hf.flushRank_le hg hleft).2 hmore

end Calls

end Hplip.Ip.Rotate
