import Mathlib
import Hplip.Ip.RotateStrip

/-!
# Whole rotations

The rows of an image are fed, each until it is consumed, and then the transform is told to flush
until it is done.
-/

namespace Hplip.Ip.Rotate

open CInt Checked

/-! ## The instance that converts -/

/-- The instance of an accepted job, before the first call. -/
structure Opened (traits : IpImageTraits) (spec : XformSpec) (g : Inst) : Prop where
  inTraits : g.inTraits = traits
  pixels : 0 < traits.iPixelsPerRow
  outTraits : g.outTraits = { traits with
    iPixelsPerRow := g.iOutWidth
    lNumRows := g.iOutHeight }
  width : ∃ sq, 0 < sq ∧ IsInt sq ∧ g.iOutWidth = outLength (highHalf spec.outputSize) sq
  widthSpec : 0 ≤ highHalf spec.outputSize
  height : ∃ sq, 0 < sq ∧ IsInt sq ∧ g.iOutHeight = outLength (lowHalf spec.outputSize) sq
  hSlopeDx : g.hSlopeDx
    = ((highHalf spec.upperRight - highHalf spec.upperLeft) * 0x10000).tdiv g.iOutWidth
  hSlopeDy : g.hSlopeDy
    = ((lowHalf spec.upperRight - lowHalf spec.upperLeft) * 0x10000).tdiv g.iOutWidth
  vSlopeDx : g.vSlopeDx
    = ((highHalf spec.lowerLeft - highHalf spec.upperLeft) * 0x10000).tdiv g.iOutHeight
  vSlopeDy : g.vSlopeDy
    = ((lowHalf spec.lowerLeft - lowHalf spec.upperLeft) * 0x10000).tdiv g.iOutHeight
  xLeft : g.xLeft = highHalf spec.upperLeft * 0x10000
  yLeft : g.yLeft = lowHalf spec.upperLeft * 0x10000 ∧ IsInt g.yLeft
  yRight : g.yRight = lowHalf spec.upperRight * 0x10000 ∧ IsInt g.yRight
  bytes : g.bytesPerPixel
    = if traits.iBitsPerPixel.tdiv 8 = 0 then 1 else traits.iBitsPerPixel.tdiv 8
  inBytes : g.inBytesPerRow = (traits.iPixelsPerRow * traits.iBitsPerPixel + 7).tdiv 8
  outBytes : g.outBytesPerRow = (g.iOutWidth * traits.iBitsPerPixel + 7).tdiv 8
  stripBytes : g.stripBytesPerRow = traits.iPixelsPerRow * g.bytesPerPixel
  stripRows : g.stripRows = (if g.vSlopeDy < 0 then
      max (lowHalf spec.upperLeft) (lowHalf spec.upperRight) - min (lowHalf spec.lowerLeft)
        (lowHalf spec.upperRight + (lowHalf spec.lowerLeft - lowHalf spec.upperLeft)) + 1
    else max (lowHalf spec.upperLeft) (lowHalf spec.upperRight)
      - min (lowHalf spec.upperLeft) (lowHalf spec.upperRight) + 1) + 2
  size : g.stripSize = g.stripRows * g.stripBytesPerRow
  strip : g.stripIndexYTop = 0 ∧ g.stripYTop = 0 ∧ g.stripYBottom = -1 ∧ g.stripLoaded = 0
  sent : g.dwRowsSent = 0

section Start

variable {traits : IpImageTraits} {spec : XformSpec} {g : Inst}

theorem lengthSq_ok {dx dy sq : Int} (hsq : lengthSq dx dy = .ok sq) : IsInt sq := by
  obtain ⟨x, hx, hsq⟩ := steps_of_ok hsq
  obtain ⟨y, hy, hsq⟩ := steps_of_ok hsq
  obtain ⟨hint, rfl⟩ := int_eq_ok.mp hsq
  exact hint

theorem rowBytes_ok {n bpp m : Int} (hm : rowBytes n bpp = .ok m) :
    m = (n * bpp + 7).tdiv 8 := by
  obtain ⟨bits, hbits, hm⟩ := steps_of_ok hm
  obtain ⟨rounded, hrounded, hm⟩ := steps_of_ok hm
  obtain ⟨-, rfl⟩ := int_eq_ok.mp hbits
  obtain ⟨-, rfl⟩ := int_eq_ok.mp hrounded
  exact (Except.ok.inj hm).symm

theorem start_opened (hstart : start traits spec = .ok g) : Opened traits spec g := by
  obtain ⟨g₁, htraits, hstart⟩ := steps_of_ok hstart
  obtain ⟨_, hknown, htraits⟩ := steps_of_ok htraits
  obtain ⟨hpixels, -, -⟩ := require_eq_ok.mp hknown
  obtain rfl := Except.ok.inj htraits
  obtain ⟨g₂, hspec, hstart⟩ := steps_of_ok hstart
  obtain ⟨_, hsize, hspec⟩ := steps_of_ok hspec
  have hwidth := (require_eq_ok.mp hsize).1
  obtain rfl := Except.ok.inj hspec
  obtain ⟨g₃, hrect, hstrip⟩ := steps_of_ok hstart
  obtain ⟨wsq, hwsq, hrect⟩ := steps_of_ok hrect
  obtain ⟨hsq, hhsq, hrect⟩ := steps_of_ok hrect
  obtain ⟨_, hpos, hrect⟩ := steps_of_ok hrect
  obtain ⟨hwpos, hhpos⟩ := require_eq_ok.mp hpos
  obtain ⟨hx, hhx, hrect⟩ := steps_of_ok hrect
  obtain ⟨hy, hhy, hrect⟩ := steps_of_ok hrect
  obtain ⟨vx, hvx, hrect⟩ := steps_of_ok hrect
  obtain ⟨vy, hvy, hrect⟩ := steps_of_ok hrect
  obtain ⟨xLeft, hxLeft, hrect⟩ := steps_of_ok hrect
  obtain ⟨yLeft, hyLeft, hrect⟩ := steps_of_ok hrect
  obtain ⟨xRight, hxRight, hrect⟩ := steps_of_ok hrect
  obtain ⟨yRight, hyRight, hrect⟩ := steps_of_ok hrect
  obtain ⟨-, rfl⟩ := int_eq_ok.mp hhx
  obtain ⟨-, rfl⟩ := int_eq_ok.mp hhy
  obtain ⟨-, rfl⟩ := int_eq_ok.mp hvx
  obtain ⟨-, rfl⟩ := int_eq_ok.mp hvy
  obtain ⟨-, rfl⟩ := int_eq_ok.mp hxLeft
  obtain ⟨hintLeft, rfl⟩ := int_eq_ok.mp hyLeft
  obtain ⟨-, rfl⟩ := int_eq_ok.mp hxRight
  obtain ⟨hintRight, rfl⟩ := int_eq_ok.mp hyRight
  obtain rfl := Except.ok.inj hrect
  obtain ⟨inBytes, hin, hstrip⟩ := steps_of_ok hstrip
  obtain ⟨outBytes, hout, hstrip⟩ := steps_of_ok hstrip
  obtain ⟨stripBytes, hbytes, hstrip⟩ := steps_of_ok hstrip
  obtain ⟨stripSize, hstripSize, hstrip⟩ := steps_of_ok hstrip
  obtain ⟨-, rfl⟩ := int_eq_ok.mp hbytes
  obtain ⟨-, rfl⟩ := int_eq_ok.mp hstripSize
  obtain rfl := Except.ok.inj hstrip
  exact ⟨rfl, hpixels, rfl, ⟨wsq, hwpos, lengthSq_ok hwsq, rfl⟩, hwidth,
    ⟨hsq, hhpos, lengthSq_ok hhsq, rfl⟩, rfl, rfl, rfl, rfl, rfl, ⟨rfl, hintLeft⟩, ⟨rfl, hintRight⟩,
    rfl, rowBytes_ok hin, rowBytes_ok hout, rfl, rfl, rfl, ⟨rfl, rfl, rfl, rfl⟩, rfl⟩

theorem outLength_bounds {i sq : Int} (hsq : 0 < sq) (hint : IsInt sq) (hi : 0 ≤ i) :
    0 < outLength i sq ∧ (i < 0x10000 → outLength i sq ≤ 0x10000) := by
  unfold outLength
  split
  · have htwo : 2 ≤ (4 * sq.toNat).sqrt := Nat.le_sqrt.mpr (by lia)
    have hless : (4 * sq.toNat).sqrt < 0x20000 := by
      have hmax := hint.2
      exact Nat.sqrt_lt.mpr (by lia)
    unfold roundedRoot
    lia
  · lia

theorem Opened.width_pos (hg : Opened traits spec g) : 0 < g.iOutWidth := by
  obtain ⟨sq, hsq, hint, hwidth⟩ := hg.width
  rw [hwidth]
  exact (outLength_bounds hsq hint hg.widthSpec).1

theorem Opened.height_bounds (hg : Opened traits spec g) :
    0 < g.iOutHeight ∧ g.iOutHeight ≤ 0x10000 := by
  obtain ⟨sq, hsq, hint, hheight⟩ := hg.height
  have hlow : 0 ≤ lowHalf spec.outputSize := Int.emod_nonneg _ (by decide)
  have hhigh : lowHalf spec.outputSize < 0x10000 := Int.emod_lt_of_pos _ (by decide)
  obtain ⟨hpos, hmax⟩ := outLength_bounds hsq hint hlow
  rw [hheight]
  exact ⟨hpos, hmax hhigh⟩

theorem Opened.upward_iff (hg : Opened traits spec g) :
    g.vSlopeDy < 0 ↔ lowHalf spec.lowerLeft < lowHalf spec.upperLeft := by
  obtain ⟨hpos, hmax⟩ := hg.height_bounds
  rw [hg.vSlopeDy]
  constructor
  · intro hneg
    by_contra hle
    have hnonneg := Int.tdiv_nonneg
      (show 0 ≤ (lowHalf spec.lowerLeft - lowHalf spec.upperLeft) * 0x10000 by lia)
      (Int.le_of_lt hpos)
    lia
  · intro hless
    obtain ⟨d, hd⟩ : ∃ d, (lowHalf spec.lowerLeft - lowHalf spec.upperLeft) * 0x10000 = -d := ⟨_,
      (Int.neg_neg _).symm⟩
    have hone : 1 ≤ d / g.iOutHeight := Int.le_ediv_of_mul_le hpos (by lia)
    rw [hd, Int.neg_tdiv, Int.tdiv_eq_ediv_of_nonneg (by lia)]
    lia

def rowsToFill (spec : XformSpec) : Int :=
  let yUL := lowHalf spec.upperLeft
  let yUR := lowHalf spec.upperRight
  let yLL := lowHalf spec.lowerLeft
  (if yLL < yUL then max yUL yUR - min yLL (yUR + (yLL - yUL)) else max yUL yUR - min yUL yUR) + 2

theorem Opened.rows (hg : Opened traits spec g) : g.stripRows = rowsToFill spec + 1 := by
  rw [hg.stripRows, rowsToFill]
  by_cases hup : lowHalf spec.lowerLeft < lowHalf spec.upperLeft
  · rw [if_pos (hg.upward_iff.mpr hup), if_pos hup]
    lia
  · rw [if_neg (mt hg.upward_iff.mp hup), if_neg hup]
    lia

theorem rowsToFill_ge (spec : XformSpec) : 2 ≤ rowsToFill spec := by
  unfold rowsToFill
  dsimp only
  split <;> lia

theorem Opened.sound (hg : Opened traits spec g)
    (hdepth : traits.iBitsPerPixel = 1 ∨ traits.iBitsPerPixel = 8 ∨ traits.iBitsPerPixel = 24) :
    Sound traits g.iOutHeight g.stripRows g := by
  have hpixels := hg.pixels
  have hwidth := hg.width_pos
  have hbpp : 0 < traits.iBitsPerPixel := by lia
  obtain ⟨hindex, htop, hbottom, hloaded⟩ := hg.strip
  have hrows := hg.rows
  have hfill := rowsToFill_ge spec
  refine ⟨⟨hg.inTraits, by rw [hg.outTraits], rfl, hpixels, hdepth, ?_, hg.stripBytes, hg.size, ?_,
    ?_, by lia, hg.height_bounds⟩, by lia, by lia, ?_, fun _ => hg.sent, ?_, hg.yLeft.2,
    hg.yRight.2⟩
  · rw [hg.bytes]
    rcases hdepth with hd | hd | hd <;> rw [hd] <;> decide
  · have hmul := Int.mul_pos hpixels hbpp
    rw [hg.inBytes, bytesPerRow, Int.tdiv_eq_ediv_of_nonneg (by lia)]
  · have hmul := Int.mul_pos hwidth hbpp
    rw [hg.outBytes, Int.tdiv_eq_ediv_of_nonneg (by lia)]
    lia
  · rw [hg.sent]
    exact Int.le_of_lt hg.height_bounds.1
  · intro _
    lia

end Start

/-! ## Runs -/

def rowsOut (cs : List Converted) : List (List UInt8) :=
  cs.filterMap fun c => if Has c.result ipProducedRow then c.outBuf else none

section Runs

variable {traits : IpImageTraits} {h s : Int} {I : Nat → List (List UInt8) → Inst → Prop}

theorem rowsOut_cons {g : Inst} {input : Option (List UInt8)} {c : Converted}
    (hc : Answers g input c) (cs : List Converted) :
    rowsOut (c :: cs) = c.outBuf.toList ++ rowsOut cs := by
  rw [rowsOut, List.filterMap_cons]
  cases hout : c.outBuf with
  | none => simp [rowsOut]
  | some row =>
    rw [if_pos (hc.produced.mpr (by rw [hout]; rfl))]
    rfl

theorem rowsOut_append (cs cs' : List Converted) :
    rowsOut (cs ++ cs') = rowsOut cs ++ rowsOut cs' := List.filterMap_append

theorem feedRow_succ {g g' : Inst} {buf : List UInt8} {c : Converted} {calls : Nat}
    (hconvert : convert g (some buf) g.outBytesPerRow = .ok (c, g')) :
    feedRow buf (calls + 1) g = if Has c.result ipConsumedRow then .ok ([c], g')
      else feedRow buf calls g' >>= fun r => .ok (c :: r.1, r.2) := by
  rw [feedRow, getActualBufSizes, hconvert]
  rfl

theorem flush_succ {g g' : Inst} {c : Converted} {calls : Nat}
    (hconvert : convert g none g.outBytesPerRow = .ok (c, g')) :
    flush (calls + 1) g = if Has c.result ipDone then .ok [c]
      else flush calls g' >>= fun cs => .ok (c :: cs) := by
  rw [flush, getActualBufSizes, hconvert]
  rfl

theorem convert_last {g : Inst} {avail : Int} (hall : allSent g) : convert g none avail
    = .ok (⟨ipDone, 0, g.dwInNextPos, g.dwOutNextPos, none⟩, g) := if_pos ⟨rfl, hall⟩

/-- What the calls with one row keep: it is consumed by those that take one, and `k` rows are. -/
def Keeps (traits : IpImageTraits) (h s : Int) (I : Nat → List (List UInt8) → Inst → Prop)
    (k : Nat) (input : Option (List UInt8)) : Prop :=
  ∀ outs g out g', Sound traits h s g → I k outs g → (input = none → ¬ allSent g) →
    Call g input out g' →
      (input.isSome = true ∧ Takes g → I (k + 1) (outs ++ out.toList) g') ∧
        (¬ (input.isSome = true ∧ Takes g) → I k (outs ++ out.toList) g')

theorem convert_some {g : Inst} {buf : List UInt8} (hg : Sound traits h s g)
    (hbuf : bytesPerRow traits ≤ buf.length) :
    ∃ c g', convert g (some buf) g.outBytesPerRow = .ok (c, g') ∧
      Call g (some buf) c.outBuf g' ∧ Answers g (some buf) c := by
  refine convert_call hg (fun hlast => nomatch hlast.1) ?_ fun _ => ⟨_, rfl⟩
  rw [hg.inBytes]
  exact hbuf

theorem convert_none {g : Inst} (hg : Sound traits h s g) (hleft : ¬ allSent g)
    (hrow : g.stripLoaded < g.stripRows → ∃ bytes, initialRow g none = .ok bytes) :
    ∃ c g', convert g none g.outBytesPerRow = .ok (c, g') ∧ Call g none c.outBuf g' ∧
      Answers g none c :=
  convert_call hg (fun hlast => hleft hlast.2) (Int.le_refl _) hrow

theorem feedRow_run {k : Nat} {buf : List UInt8} (hbuf : bytesPerRow traits ≤ buf.length)
    (hcall : Keeps traits h s I k (some buf)) (calls : Nat) {outs : List (List UInt8)} {g : Inst}
    (hg : Sound traits h s g) (hI : I k outs g) :
    Gives (fun r => Sound traits h s r.2 ∧ I (k + 1) (outs ++ rowsOut r.1) r.2)
        (feedRow buf calls g) ∧
      (feedRank h g < calls → Safe (feedRow buf calls g)) := by
  induction calls generalizing outs g with
  | zero =>
    refine ⟨fun r hr => ?_, fun hless => absurd hless (Nat.not_lt_zero _)⟩
    rw [feedRow] at hr
    cases hr
  | succ calls ih =>
    obtain ⟨c, g', hconvert, hc, hanswers⟩ := convert_some hg hbuf
    have hg' := hc.sound hg
    obtain ⟨htakes, hleaves⟩ := hcall outs g c.outBuf g' hg hI nofun hc
    have hout (cs : List Converted) : rowsOut (c :: cs) = c.outBuf.toList ++ rowsOut cs :=
      rowsOut_cons hanswers cs
    rw [feedRow_succ hconvert]
    -- the client goes on to its next row only when this one is consumed
    by_cases hcons : Has c.result ipConsumedRow
    · rw [if_pos hcons]
      refine ⟨Gives.ok ⟨hg', ?_⟩, fun _ => safe_ok _⟩
      have hnext := htakes (hanswers.consumed.mp hcons)
      rw [hout]
      show I (k + 1) (outs ++ (c.outBuf.toList ++ [])) g'
      rwa [List.append_nil]
    · rw [if_neg hcons]
      have hnot := mt hanswers.consumed.mpr hcons
      obtain ⟨hgives, hsafe⟩ := ih hg' (hleaves hnot)
      constructor
      · refine hgives.bind fun r hr => Gives.ok ⟨hr.1, ?_⟩
        have hall := hr.2
        rw [List.append_assoc] at hall
        rw [hout]
        exact hall
      · -- a call that consumes nothing has sent a row
        intro hless
        have hrank := hc.feedRank_lt hg fun ht => hnot ⟨rfl, ht⟩
        exact (safe_bind_iff fun r => safe_ok _).mpr (hsafe (by omega))

/-- **Run lemma.** The rows of an image. -/
theorem feed_run {img : List (List UInt8)}
    (hlen : ∀ buf ∈ img, bytesPerRow traits ≤ buf.length)
    (hcall : ∀ k buf, img[k]? = some buf → Keeps traits h s I k (some buf)) (calls : Nat)
    {rest : List (List UInt8)} {k : Nat} (hrest : img.drop k = rest) {outs : List (List UInt8)}
    {g : Inst} (hg : Sound traits h s g) (hI : I k outs g) :
    Gives (fun r => Sound traits h s r.2 ∧ I (k + rest.length) (outs ++ rowsOut r.1) r.2)
        (feed calls rest g) ∧
      (h.toNat + 1 < calls → Safe (feed calls rest g)) := by
  induction rest generalizing k outs g with
  | nil =>
    refine ⟨Gives.ok ⟨hg, ?_⟩, fun _ => safe_ok _⟩
    show I k (outs ++ []) g
    rwa [List.append_nil]
  | cons buf rest ih =>
    have hat : img[k]? = some buf := by
      rw [← List.head?_drop, hrest]
      rfl
    have hdrop : img.drop (k + 1) = rest := by
      rw [← List.drop_drop, hrest]
      rfl
    obtain ⟨hgives, hsafe⟩ := feedRow_run (hlen buf (List.mem_of_getElem? hat)) (hcall k buf hat)
      calls hg hI
    rw [feed]
    constructor
    · refine hgives.bind fun r hr => (ih hdrop hr.1 hr.2).1.bind fun r' hr' => Gives.ok ⟨hr'.1, ?_⟩
      have hall := hr'.2
      rw [List.append_assoc, ← rowsOut_append, Nat.add_assoc, Nat.add_comm 1] at hall
      exact hall
    · intro hcalls
      obtain ⟨r, hr⟩ := hsafe (Nat.lt_of_le_of_lt (feedRank_le g) hcalls)
      rw [safe_bind hr]
      have hnext := hgives r hr
      exact (safe_bind_iff fun r' => safe_ok _).mpr ((ih hdrop hnext.1 hnext.2).2 hcalls)

/-- How the calls on an image end: the last one says that the transform is done. -/
def EndsDone (cs : List Converted) : Prop := ∃ c, cs.getLast? = some c ∧ c.result = ipDone

/-- **Run lemma.** The flush, where the initial load can go on without input. -/
theorem flush_run {k : Nat} (hcall : Keeps traits h s I k none)
    (hrow : ∀ outs g, Sound traits h s g → I k outs g → ¬ allSent g → g.stripLoaded < g.stripRows →
      ∃ bytes, initialRow g none = .ok bytes)
    (calls : Nat) {outs : List (List UInt8)} {g : Inst} (hg : Sound traits h s g)
    (hI : I k outs g) :
    Gives (fun cs => EndsDone cs ∧ ∃ g', Sound traits h s g' ∧ allSent g' ∧
        I k (outs ++ rowsOut cs) g') (flush calls g) ∧
      (flushRank h s g < calls → Safe (flush calls g)) := by
  induction calls generalizing outs g with
  | zero =>
    refine ⟨fun r hr => ?_, fun hless => absurd hless (Nat.not_lt_zero _)⟩
    rw [flush] at hr
    cases hr
  | succ calls ih =>
    by_cases hall : allSent g
    · rw [flush_succ (convert_last hall), if_pos (show Has ipDone ipDone by decide)]
      refine ⟨Gives.ok ⟨⟨_, rfl, rfl⟩, g, hg, hall, ?_⟩, fun _ => safe_ok _⟩
      simpa [rowsOut] using hI
    · obtain ⟨c, g', hconvert, hc, hanswers⟩ := convert_none hg hall (hrow outs g hg hI hall)
      have hg' := hc.sound hg
      have hI' := (hcall outs g c.outBuf g' hg hI (fun _ => hall) hc).2 nofun
      rw [flush_succ hconvert, if_neg hanswers.notDone]
      obtain ⟨hgives, hsafe⟩ := ih hg' hI'
      constructor
      · refine hgives.bind fun cs hcs => Gives.ok ?_
        obtain ⟨⟨last, hlast, hdone⟩, g'', hg'', hall', hI''⟩ := hcs
        refine ⟨⟨last, ?_, hdone⟩, g'', hg'', hall', ?_⟩
        · rw [List.getLast?_cons, hlast]
          rfl
        · rwa [rowsOut_cons hanswers, ← List.append_assoc]
      · intro hless
        have hrank := hc.flushRank_lt hg hall
        exact (safe_bind_iff fun cs => safe_ok _).mpr (hsafe (by omega))

theorem flush_safe {k : Nat} (hcall : Keeps traits h s I k none)
    (hrow : ∀ outs g, Sound traits h s g → I k outs g → ¬ allSent g → g.stripLoaded < g.stripRows →
      ∃ bytes, initialRow g none = .ok bytes)
    {calls : Nat} {outs : List (List UInt8)} {g : Inst} (hg : Sound traits h s g) (hI : I k outs g)
    (hcalls : s.toNat + h.toNat + 32769 < calls) : Safe (flush calls g) := by
  by_cases hall : allSent g
  · obtain ⟨calls, rfl⟩ : ∃ n, calls = n + 1 := ⟨calls - 1, by lia⟩
    rw [flush_succ (convert_last hall), if_pos (show Has ipDone ipDone by decide)]
    exact safe_ok _
  · refine (flush_run hcall hrow calls hg hI).2 ?_
    have hbottom := hg.bottom hall
    have hloaded := hg.loaded
    rw [flushRank]
    lia

/-- **The calls on an image**, under an invariant that every call keeps. -/
theorem rotateImage_run {img : List (List UInt8)}
    (hlen : ∀ buf ∈ img, bytesPerRow traits ≤ buf.length)
    (hfeed : ∀ k buf, img[k]? = some buf → Keeps traits h s I k (some buf))
    (hflush : Keeps traits h s I img.length none)
    (hrow : ∀ outs g, Sound traits h s g → I img.length outs g → ¬ allSent g →
      g.stripLoaded < g.stripRows → ∃ bytes, initialRow g none = .ok bytes)
    {g : Inst} (hg : Sound traits h s g) (hI : I 0 [] g) (calls : Nat) :
    Gives (fun cs => EndsDone cs ∧ ∃ g', Sound traits h s g' ∧ allSent g' ∧
        I img.length (rowsOut cs) g') (rotateImage calls g img) ∧
      (s.toNat + h.toNat + 32769 < calls → Safe (rotateImage calls g img)) := by
  obtain ⟨hgives, hsafe⟩ := feed_run hlen hfeed calls List.drop_zero hg hI
  rw [Nat.zero_add] at hgives
  rw [rotateImage]
  constructor
  · refine hgives.bind fun r hr => (flush_run hflush hrow calls hr.1 hr.2).1.bind fun cs hcs => ?_
    obtain ⟨⟨c, hlast, hdone⟩, g', hg', hall, hI'⟩ := hcs
    refine Gives.ok ⟨⟨c, ?_, hdone⟩, g', hg', hall, ?_⟩
    · rw [List.getLast?_append, hlast]
      rfl
    · rwa [rowsOut_append]
  · intro hcalls
    obtain ⟨r, hr⟩ := hsafe (by lia)
    rw [safe_bind hr]
    have hnext := hgives r hr
    exact (safe_bind_iff fun cs => safe_ok _).mpr (flush_safe hflush hrow hnext.1 hnext.2 hcalls)

end Runs

/-! ## Completion -/

/-- The calls on an image are answered, output the rows that were asked for, and end. -/
def Completes (g : Inst) (img : List (List UInt8)) : Prop :=
  ∃ calls cs, rotateImage calls g img = .ok cs ∧ EndsDone cs ∧ (rowsOut cs).length = g.iOutHeight

/-- The rows of the strip that are filled once `k` rows of the image are consumed. -/
def fillOf (s : Int) (k : Nat) : Int := if k = 0 then 0 else min s (k + 1)

section Completion

variable {traits : IpImageTraits} {spec : XformSpec} {h s : Int} {g : Inst}
  {img : List (List UInt8)}

theorem fillOf_succ (s : Int) (k : Nat) : fillOf s (k + 1) = min s (k + 2) := by
  rw [fillOf, if_neg (Nat.succ_ne_zero k)]
  lia

theorem fillOf_le (hs : 3 ≤ s) (k : Nat) : fillOf s k ≤ min s (k + 1) := by
  unfold fillOf
  split <;> lia

/-- At least the rows that are consumed are in the strip, and the rows that are out are counted. -/
def Counted (s : Int) (k : Nat) (outs : List (List UInt8)) (g : Inst) : Prop :=
  fillOf s k ≤ g.stripLoaded ∧ outs.length = g.dwRowsSent.toNat

theorem keeps_counted (k : Nat) (input : Option (List UInt8)) :
    Keeps traits h s (Counted s) k input := by
  rintro outs g out g' hg ⟨hfill, hcount⟩ - hc
  obtain ⟨hsent, hloaded⟩ := hc.counts hg
  have hrange := hg.loaded
  have hmin := hg.minRows
  have hout : (outs ++ out.toList).length = g'.dwRowsSent.toNat := by
    rw [List.length_append, hcount, hsent]
  refine ⟨fun _ => ⟨?_, hout⟩, fun _ => ⟨?_, hout⟩⟩
  · rw [fillOf_succ, hloaded]
    unfold fillOf at hfill
    split at hfill <;> split <;> try split
    all_goals lia
  · refine Int.le_trans hfill ?_
    rw [hloaded]
    split
    · split <;> lia
    · exact Int.le_refl _

def Filling (s : Int) (k : Nat) (_outs : List (List UInt8)) (g : Inst) : Prop :=
  g.stripLoaded = fillOf s k

theorem keeps_filling {k : Nat} (hk : (k : Int) + 1 < s) (buf : List UInt8) :
    Keeps traits h s (Filling s) k (some buf) := by
  intro outs g out g' hg hfill _ hc
  unfold Filling at hfill
  have hmin := hg.minRows
  have hless : g.stripLoaded < s := by
    have hle := fillOf_le hmin k
    lia
  have hloaded := (hc.counts hg).2
  rw [if_pos hless] at hloaded
  refine ⟨fun _ => ?_, fun hnot => absurd ⟨rfl, .inl (hg.stripRows ▸ hless)⟩ hnot⟩
  show g'.stripLoaded = fillOf s (k + 1)
  rw [hloaded, fillOf_succ, hfill, fillOf]
  split <;> split <;> lia

theorem flush_null (hg : Sound traits h s g) (hdepth : traits.iBitsPerPixel = 1)
    (hfill : g.stripLoaded < s) (calls : Nat) (cs : List Converted) : flush calls g ≠ .ok cs := by
  have hin := hg.inBytes_pos
  have hheight := hg.height.1
  have hleft : ¬ allSent g := by
    rw [allSent_iff hg.toSized, hg.filling hfill]
    exact Int.not_le.mpr hheight
  have hconvert : convert g none g.outBytesPerRow = .error .nullInput := by
    rw [convert, if_neg (fun hlast => hleft hlast.2),
      if_neg (fun hzero => Int.ne_of_gt hin hzero.2), if_pos (hg.stripRows ▸ hfill),
      require_pos (show g.inBytesPerRow ≤ inputAvail g none from Int.le_refl _)]
    show (loadInitial g none >>= fun g' => _) = _
    rw [loadInitial_null hg hdepth hfill]
    rfl
  cases calls with
  | zero => rintro ⟨⟩
  | succ calls =>
    rw [flush, getActualBufSizes, hconvert]
    rintro ⟨⟩

theorem not_completes (hg : Opened traits spec g) (hdepth : traits.iBitsPerPixel = 1)
    (hlen : ∀ buf ∈ img, bytesPerRow traits ≤ buf.length)
    (hshort : (img.length : Int) < rowsToFill spec) : ¬ Completes g img := by
  rintro ⟨calls, cs, hrun, -, -⟩
  have hrows := hg.rows
  have hsound := hg.sound (.inl hdepth)
  obtain ⟨⟨fed, g'⟩, hfeed, hflush⟩ := steps_of_ok hrun
  obtain ⟨cs', hflush, -⟩ := steps_of_ok hflush
  have hstart : Filling g.stripRows 0 [] g := hg.strip.2.2.2
  obtain ⟨hgives, -⟩ := feed_run hlen (fun k buf hat => keeps_filling (by
      have hk := (List.getElem?_eq_some_iff.mp hat).1
      lia) buf) calls List.drop_zero hsound hstart
  obtain ⟨hg', hloaded⟩ := hgives _ hfeed
  refine flush_null hg' hdepth ?_ calls cs' hflush
  have hle := fillOf_le hsound.minRows (0 + img.length)
  rw [show g'.stripLoaded = fillOf g.stripRows (0 + img.length) from hloaded]
  lia

def onePixel : XformSpec := ⟨0, 0x10000, 1, 0x10001, 0⟩

theorem onePixel_opened : ∃ g, start ⟨1, 1, 1, 0, 0, 1, 0, 0⟩ onePixel = .ok g := ⟨_, rfl⟩

end Completion

end Hplip.Ip.Rotate
