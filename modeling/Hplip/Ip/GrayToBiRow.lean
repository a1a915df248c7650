import Hplip.Ip.GrayToBi

/-!
# Which pixels a diffused row has

The loop of `diffuseRow` stops when the pointer that runs three pixels ahead leaves the row. What
does that make of the row?
-/

namespace Hplip.Ip.GrayToBi

open Bits

/-! ## How many pixels -/

section Count

variable {inBuf : Nat → UInt8} {errBuf : Nat → Int16}

/-- Pointers and log after `k` pixels. -/
structure Logged (k : Nat) (s : Diffusion) : Prop where
  inptr : s.inptr = 3 + k
  eptr : s.eptr = 2 + k
  reads : s.reads = List.range (3 + k)
  pixels : s.pixels.length = k

theorem diffusePixel_logged {k : Nat} {s : Diffusion} (h : Logged k s) :
    Logged (k + 1) (diffusePixel inBuf s) := by
  constructor
  · exact congrArg (· + 1) h.inptr
  · exact congrArg (· + 1) h.eptr
  · show s.reads ++ [s.inptr] = List.range (3 + k + 1)
    rw [h.reads, h.inptr, List.range_succ]
  · show (s.pixels ++ [black s.cur]).length = k + 1
    rw [List.length_append, h.pixels, List.length_singleton]

theorem iterate_logged (errBuf : Nat → Int16) (inBuf : Nat → UInt8) (k : Nat) :
    Logged k ((diffusePixel inBuf)^[k] (diffuseStart errBuf inBuf)) := by
  induction k with
  | zero => exact ⟨rfl, rfl, rfl, rfl⟩
  | succ k ih =>
    rw [Function.iterate_succ_apply']
    exact diffusePixel_logged ih

theorem groupsDone_logged (n : Nat) :
    Logged (4 * (n / 4)) (groupsDone n errBuf inBuf).diffusion := by
  rw [groupsDone_diffusion]
  exact iterate_logged _ _ _

theorem diffuseRow_pixels (n : Nat) :
    (diffuseRow n errBuf inBuf).diffusion.pixels.length = 4 * (n / 4) := by
  rw [diffuseRow_eq]
  exact (groupsDone_logged n).pixels

theorem diffuseRow_reads (n : Nat) :
    (diffuseRow n errBuf inBuf).diffusion.reads = List.range (3 + 4 * (n / 4)) := by
  rw [diffuseRow_eq]
  exact (groupsDone_logged n).reads

end Count

/-! ## The output -/

section Output

variable {inBuf : Nat → UInt8} {errBuf : Nat → Int16}

def nibble (c₀ c₁ c₂ c₃ : Bool) (v : UInt8) : UInt8 :=
  setBlack 0x01 c₃ (setBlack 0x02 c₂ (setBlack 0x04 c₁ (setBlack 0x08 c₀ v)))

theorem byteBits_nibbles : ∀ c₀ c₁ c₂ c₃ c₄ c₅ c₆ c₇,
    byteBits (nibble c₄ c₅ c₆ c₇ (nibble c₀ c₁ c₂ c₃ 0 <<< 4)) = [c₀, c₁, c₂, c₃, c₄, c₅, c₆, c₇] := by
  decide +kernel

theorem byteBits_left : ∀ c₀ c₁ c₂ c₃,
    byteBits (nibble c₀ c₁ c₂ c₃ 0 <<< 4) = [c₀, c₁, c₂, c₃, false, false, false, false] := by
  decide +kernel

/-- The pixels are those of the bytes written and of the half of a byte that is kept. -/
def Packed (s : RowState) : Prop :=
  if s.second then
    ∃ c₀ c₁ c₂ c₃, s.outvalue = nibble c₀ c₁ c₂ c₃ 0 <<< 4 ∧
      s.diffusion.pixels = bitsOf s.out ++ [c₀, c₁, c₂, c₃]
  else s.outvalue = 0 ∧ s.diffusion.pixels = bitsOf s.out

theorem diffuseGroup_packed {s : RowState} (h : Packed s) : Packed (diffuseGroup inBuf s) := by
  obtain ⟨d, v, second, out⟩ := s
  cases second with
  | false =>
    obtain ⟨hv, hpixels⟩ := h
    simp only at hv hpixels
    subst hv
    refine ⟨_, _, _, _, rfl, ?_⟩
    simp [diffuseGroup, endNibble, diffuse, diffusePixel, hpixels]
  | true =>
    obtain ⟨c₀, c₁, c₂, c₃, hv, hpixels⟩ := h
    simp only at hv hpixels
    subst hv
    refine ⟨rfl, ?_⟩
    have hbyte := byteBits_nibbles c₀ c₁ c₂ c₃
    simp only [nibble] at hbyte
    simp [diffuseGroup, endNibble, diffuse, diffusePixel, hpixels, nibble, hbyte]

theorem groupsDone_packed (n : Nat) (errBuf : Nat → Int16) (inBuf : Nat → UInt8) : Packed (groupsDone n errBuf inBuf) := by
  rw [groupsDone]
  induction n / 4 with
  | zero => exact ⟨rfl, rfl⟩
  | succ k ih =>
    rw [Function.iterate_succ_apply']
    exact diffuseGroup_packed ih

/-- **The output**: the bytes of a row are its pixels, white where a byte is not full. -/
theorem diffuseRow_bits (n : Nat) (errBuf : Nat → Int16) (inBuf : Nat → UInt8) : ∃ k,
    bitsOf (diffuseRow n errBuf inBuf).out
      = (diffuseRow n errBuf inBuf).diffusion.pixels ++ List.replicate k false := by
  have hpacked := groupsDone_packed n errBuf inBuf
  rw [diffuseRow_eq]
  generalize groupsDone n errBuf inBuf = s at hpacked
  obtain ⟨d, v, second, out⟩ := s
  cases second with
  | false => exact ⟨0, by rw [List.replicate_zero, List.append_nil]; exact hpacked.2.symm⟩
  | true =>
    obtain ⟨c₀, c₁, c₂, c₃, hv, hpixels⟩ := hpacked
    simp only at hv hpixels
    refine ⟨4, ?_⟩
    simp [storeLast, hv, hpixels, byteBits_left, List.replicate]

end Output

/-! ## Memory behind the error buffer -/

def loud : Spare := ⟨fun _ => 32767, fun _ _ => 0⟩

def quiet : Spare := ⟨fun _ => -32768, fun _ _ => 0⟩

section Spare

variable {n k : Nat} {inBuf : Nat → UInt8} {s t : Diffusion}

structure Alike (n k : Nat) (s t : Diffusion) : Prop where
  errors : s.cur = t.cur ∧ s.r = t.r ∧ s.rr = t.rr ∧ s.b = t.b ∧ s.bl = t.bl ∧ s.bll = t.bll
  inptr : s.inptr = t.inptr
  eptr : s.eptr = 2 + k ∧ t.eptr = 2 + k
  within : ∀ i < n, s.errBuf i = t.errBuf i
  behind : ∀ i, n ≤ i → s.errBuf i = 32767 ∧ t.errBuf i = -32768

/-- Two runs one of which has read a large entry where the other has read a small one. -/
structure Apart (s t : Diffusion) : Prop where
  cur : s.cur = t.cur
  r : s.r = t.r
  rr : s.rr = t.rr + 65535

theorem start_alike (hn : 4 < n) :
    Alike n 0 (diffuseStart (zeroErrBuf n loud) inBuf) (diffuseStart (zeroErrBuf n quiet) inBuf) := by
  have hzero {i : Nat} (h : i < n) (spare : Spare) : zeroErrBuf n spare i = 0 := if_pos h
  have hload {i : Nat} (h : i + 2 < n) :
      loaded (zeroErrBuf n loud) inBuf i = loaded (zeroErrBuf n quiet) inBuf i := by
    rw [loaded, loaded, hzero h, hzero h]
  constructor
  · exact ⟨hload (by omega), hload (by omega), hload (by omega), rfl, rfl, rfl⟩
  · rfl
  · exact ⟨rfl, rfl⟩
  · intro i hi
    exact (hzero hi loud).trans (hzero hi quiet).symm
  · intro i hi
    exact ⟨if_neg (Nat.not_lt.mpr hi), if_neg (Nat.not_lt.mpr hi)⟩

theorem Alike.step (h : Alike n k s t) (hk : k + 4 < n) :
    Alike n (k + 1) (diffusePixel inBuf s) (diffusePixel inBuf t) := by
  obtain ⟨⟨hcur, hr, hrr, hb, hbl, hbll⟩, hinptr, ⟨hs, ht⟩, hwithin, hbehind⟩ := h
  have hread : s.errBuf (s.eptr + 2) = t.errBuf (t.eptr + 2) := by
    rw [hs, ht]
    exact hwithin _ (by lia)
  constructor
  · simp only [diffusePixel, hcur, hr, hrr, hb, hbl, hbll, hinptr, hread, and_self]
  · exact congrArg (· + 1) hinptr
  · exact ⟨congrArg (· + 1) hs, congrArg (· + 1) ht⟩
  · intro i hi
    simp only [diffusePixel, hs, ht, hcur, hbll, Function.update_apply, hwithin i hi]
  · intro i hi
    have hother : i ≠ 2 + k - 2 := by lia
    simp only [diffusePixel, hs, ht, Function.update_apply, if_neg hother]
    exact hbehind i hi

theorem Alike.apart (h : Alike n k s t) (hk : k + 4 = n) :
    Apart (diffusePixel inBuf s) (diffusePixel inBuf t) := by
  obtain ⟨⟨hcur, hr, hrr, -⟩, hinptr, ⟨hs, ht⟩, -, hbehind⟩ := h
  obtain ⟨hloud, hquiet⟩ := hbehind (2 + k + 2) (by lia)
  constructor
  · simp only [diffusePixel, hcur, hr]
  · simp only [diffusePixel, hcur, hrr]
  · simp only [diffusePixel, hinptr, hs, ht, hloud, hquiet]
    rw [show (32767 : Int16).toInt = 32767 from rfl, show (-32768 : Int16).toInt = -32768 from rfl]
    lia

theorem iterate_alike (hk : k + 4 ≤ n) (hn : 4 < n) :
    Alike n k ((diffusePixel inBuf)^[k] (diffuseStart (zeroErrBuf n loud) inBuf))
      ((diffusePixel inBuf)^[k] (diffuseStart (zeroErrBuf n quiet) inBuf)) := by
  induction k with
  | zero => exact start_alike hn
  | succ k ih =>
    rw [Function.iterate_succ_apply', Function.iterate_succ_apply']
    exact (ih (by omega)).step (by omega)

theorem exists_apart (inBuf : Nat → UInt8) (hn : 4 ≤ n) : ∃ k, k + 2 < n ∧
    Apart ((diffusePixel inBuf)^[k] (diffuseStart (zeroErrBuf n loud) inBuf))
      ((diffusePixel inBuf)^[k] (diffuseStart (zeroErrBuf n quiet) inBuf)) := by
  by_cases hfour : n = 4
  · subst hfour
    refine ⟨0, by lia, rfl, rfl, ?_⟩
    show ((inBuf 2).toNat * 16 + (32767 : Int16).toInt : Int)
      = (inBuf 2).toNat * 16 + (-32768 : Int16).toInt + 65535
    rw [show (32767 : Int16).toInt = 32767 from rfl, show (-32768 : Int16).toInt = -32768 from rfl]
    lia
  · refine ⟨n - 4 + 1, by lia, ?_⟩
    rw [Function.iterate_succ_apply', Function.iterate_succ_apply']
    exact (iterate_alike (by lia) (by lia)).apart (by lia)

theorem Apart.two_later (h : Apart s t) (inBuf : Nat → UInt8) :
    ((diffusePixel inBuf)^[2] s).cur = ((diffusePixel inBuf)^[2] t).cur + 65535 := by
  have hnext : (diffusePixel inBuf s).cur = (diffusePixel inBuf t).cur := by
    simp only [diffusePixel, h.cur, h.r]
  have hr : (diffusePixel inBuf s).r = (diffusePixel inBuf t).r + 65535 := by
    simp only [diffusePixel, h.cur, h.rr]
    lia
  show (diffusePixel inBuf (diffusePixel inBuf s)).cur
    = (diffusePixel inBuf (diffusePixel inBuf t)).cur + 65535
  generalize diffusePixel inBuf s = s' at hnext hr
  generalize diffusePixel inBuf t = t' at hnext hr
  simp only [diffusePixel, hnext, hr]
  lia

theorem black_ne (hs : Bounded s) (ht : Bounded t) (h : s.cur = t.cur + 65535) :
    black s.cur ≠ black t.cur := by
  have hscur := hs.cur
  have htcur := ht.cur
  rw [black, black, decide_eq_false (by lia), decide_eq_true (by lia)]
  exact Bool.false_ne_true

theorem getElem?_pixels {errBuf : Nat → Int16} (j m : Nat) :
    ((diffusePixel inBuf)^[j + 1 + m] (diffuseStart errBuf inBuf)).pixels[j]?
      = some (black ((diffusePixel inBuf)^[j] (diffuseStart errBuf inBuf)).cur) := by
  induction m with
  | zero =>
    rw [Nat.add_zero, Function.iterate_succ_apply']
    have hlen := (iterate_logged errBuf inBuf j).pixels
    show (_ ++ [_])[j]? = _
    rw [List.getElem?_append_right (Nat.le_of_eq hlen), hlen, Nat.sub_self]
    rfl
  | succ m ih =>
    rw [← Nat.add_assoc, Function.iterate_succ_apply']
    have hlen := (iterate_logged errBuf inBuf (j + 1 + m)).pixels
    show (_ ++ [_])[j]? = _
    rw [List.getElem?_append_left (by omega)]
    exact ih

/-- **Memory decides a pixel**: a row of whole groups is not the same whatever lies behind. -/
theorem spare_decides (hn : 0 < n) (hgroups : n % 4 = 0) :
    (diffuseRow n (zeroErrBuf n loud) inBuf).diffusion.pixels
      ≠ (diffuseRow n (zeroErrBuf n quiet) inBuf).diffusion.pixels := by
  obtain ⟨k, hk, hapart⟩ := exists_apart inBuf (show 4 ≤ n by lia)
  have hcur := hapart.two_later inBuf
  rw [← Function.iterate_add_apply, ← Function.iterate_add_apply] at hcur
  intro h
  rw [diffuseRow_eq, diffuseRow_eq] at h
  simp only [storeLast, groupsDone_diffusion] at h
  have hat := congrArg (·[2 + k]?) h
  rw [show 4 * (n / 4) = 2 + k + 1 + (n - (2 + k + 1)) by lia, getElem?_pixels,
    getElem?_pixels] at hat
  exact black_ne (iterate_bounded _) (iterate_bounded _) hcur (Option.some.inj hat)

end Spare

/-! ## Complete rows -/

/-- Every row gives all its bytes and pixels, reads nothing but itself, and the output is the
same whatever lies behind the rows and behind the error buffer. -/
structure Complete {n : Nat} (rows : List (Vector UInt8 n)) : Prop where
  writes : ∀ spare, ∀ s ∈ convertRows spare rows, s.out.length = (n + 7) / 8
  decides : ∀ spare, ∀ s ∈ convertRows spare rows, s.diffusion.pixels.length = n
  reads : ∀ spare, ∀ s ∈ convertRows spare rows, ∀ i ∈ s.diffusion.reads, i < n
  determined : ∀ spare spare',
    (convertRows spare rows).map RowState.out = (convertRows spare' rows).map RowState.out

/-- **Rows.** A row that is no multiple of four loses pixels, the first row of one that is has a
pixel that memory decides: nothing is complete but no rows. -/
theorem complete_iff {n : Nat} (rows : List (Vector UInt8 n)) : Complete rows ↔ rows = [] := by
  constructor
  · intro h
    cases rows with
    | nil => rfl
    | cons row rows =>
      by_cases hgroups : n % 4 = 0
      · rcases Nat.eq_zero_or_pos n with rfl | hn
        · have hread := h.reads loud _ List.mem_cons_self 0
          rw [diffuseRow_reads] at hread
          exact absurd (hread (List.mem_range.mpr (by lia))) (Nat.lt_irrefl 0)
        · -- two memories that make the spare pixel black and white
          have hout := (List.cons.inj (h.determined loud quiet)).1
          obtain ⟨a, ha⟩ := diffuseRow_bits n (zeroErrBuf n loud)
            (inMemory row (loud.input 0))
          obtain ⟨b, hb⟩ := diffuseRow_bits n (zeroErrBuf n quiet)
            (inMemory row (quiet.input 0))
          rw [hout, hb] at ha
          refine absurd (List.append_inj_left ha ?_).symm (spare_decides hn hgroups)
          rw [diffuseRow_pixels, diffuseRow_pixels]
      · have hpixels := h.decides loud _ List.mem_cons_self
        rw [diffuseRow_pixels] at hpixels
        lia
  · rintro rfl
    exact ⟨fun _ s hs => absurd hs List.not_mem_nil, fun _ s hs => absurd hs List.not_mem_nil,
      fun _ s hs => absurd hs List.not_mem_nil, fun _ _ => rfl⟩

/-- A row of one pixel has none. -/
theorem one_pixel_lost : ¬ ∀ (n : Nat) (rows : List (Vector UInt8 n)), 1 ≤ n → Complete rows := by
  intro h
  have hpixels := (h 1 [#v[0]] (Nat.le_refl 1)).decides loud _ List.mem_cons_self
  rw [diffuseRow_pixels] at hpixels
  cases hpixels

end Hplip.Ip.GrayToBi
