import Hplip.Lib.Bits
import Mathlib.Logic.Function.Iterate
import Mathlib.Algebra.Order.Group.Unbundled.Int

/-!
# Error diffusion of gray rows (xgray2bi.c)

`diffuseRow` decides the pixels of a row four at a time and hands the error of each to its
neighbours on the right and to the row below, by a buffer of 16-bit entries. The row's bytes are
read three pixels ahead.
-/

namespace Hplip.Ip.GrayToBi

/-! ## A row -/

/-- The errors of `diffuseRow` in flight and its pointers, with the error buffer and a log of
the bytes read, the pixels decided (`true` is black), the values of `err` and the values stored. -/
structure Diffusion where
  cur : Int
  r : Int
  rr : Int
  b : Int
  bl : Int
  bll : Int
  inptr : Nat
  eptr : Nat
  errBuf : Nat → Int16
  reads : List Nat
  pixels : List Bool
  errs : List Int
  stores : List Int

/-- `mask`: whether a pixel becomes black. -/
def black (cur : Int) : Bool := decide (cur - 0x800 < 0)

/-- `err = cur - (~mask & 0x0ff0)` -/
def rawErr (cur : Int) : Int := cur - if black cur then 0 else 0x0ff0

/-- `err - (err >> 4)` -/
def damped (err : Int) : Int := err - err / 16

/-- `DIFFUSE` but for the bit of the output byte. -/
def diffusePixel (inBuf : Nat → UInt8) (s : Diffusion) : Diffusion :=
  let err := damped (rawErr s.cur)
  let weight4 := err / 4
  let weight2 := weight4 / 2
  let weight1 := weight2 / 2
  let noise := err % 256
  let stored := s.bll + (weight1 - noise)
  { cur := s.r + (weight4 + noise)
    r := s.rr + weight2
    rr := (inBuf s.inptr).toNat * 16 + (s.errBuf (s.eptr + 2)).toInt
    b := weight2 + noise
    bl := s.b + (weight4 - noise)
    bll := s.bl + (weight2 + weight1)
    inptr := s.inptr + 1
    eptr := s.eptr + 1
    errBuf := Function.update s.errBuf (s.eptr - 2) (Int16.ofInt stored)
    reads := s.reads ++ [s.inptr]
    pixels := s.pixels ++ [black s.cur]
    errs := s.errs ++ [rawErr s.cur, err]
    stores := s.stores ++ [stored] }

structure RowState where
  diffusion : Diffusion
  outvalue : UInt8
  second : Bool
  out : List UInt8

/-- `outvalue |= par_outmask & mask` -/
def setBlack (outmask : UInt8) (isBlack : Bool) (outvalue : UInt8) : UInt8 :=
  if isBlack then outvalue ||| outmask else outvalue

def diffuse (inBuf : Nat → UInt8) (outmask : UInt8) (s : RowState) : RowState :=
  { s with
    diffusion := diffusePixel inBuf s.diffusion
    outvalue := setBlack outmask (black s.diffusion.cur) s.outvalue }

def endNibble (s : RowState) : RowState :=
  if s.second = false then { s with outvalue := s.outvalue <<< 4, second := true }
  else { s with out := s.out ++ [s.outvalue], outvalue := 0, second := false }

def diffuseGroup (inBuf : Nat → UInt8) (s : RowState) : RowState :=
  endNibble (diffuse inBuf 0x01 (diffuse inBuf 0x02 (diffuse inBuf 0x04 (diffuse inBuf 0x08 s))))

/-- `while (inptr < inafter)`, for at most `fuel` turns. -/
def diffuseLoop (iPixelsPerRow : Nat) (inBuf : Nat → UInt8) : Nat → RowState → RowState
  | 0, s => s
  | fuel + 1, s =>
    if s.diffusion.inptr < iPixelsPerRow then
      diffuseLoop iPixelsPerRow inBuf fuel (diffuseGroup inBuf s)
    else s

def loaded (errBuf : Nat → Int16) (inBuf : Nat → UInt8) (i : Nat) : Int :=
  (inBuf i).toNat * 16 + (errBuf (i + 2)).toInt

def diffuseStart (errBuf : Nat → Int16) (inBuf : Nat → UInt8) : Diffusion where
  cur := loaded errBuf inBuf 0
  r := loaded errBuf inBuf 1
  rr := loaded errBuf inBuf 2
  b := 0
  bl := 0
  bll := 0
  inptr := 3
  eptr := 2
  errBuf := errBuf
  reads := [0, 1, 2]
  pixels := []
  errs := []
  stores := []

/-- `eptr[-2] = bll; eptr[-1] = bl; eptr[0] = b;` -/
def storeLast (s : Diffusion) : Diffusion :=
  { s with
    errBuf := Function.update (Function.update (Function.update s.errBuf
      (s.eptr - 2) (Int16.ofInt s.bll)) (s.eptr - 1) (Int16.ofInt s.bl)) s.eptr (Int16.ofInt s.b)
    stores := s.stores ++ [s.bll, s.bl, s.b] }

/-- `diffuseRow`: the bytes of the row and the memory behind them are `inBuf`. -/
def diffuseRow (iPixelsPerRow : Nat) (errBuf : Nat → Int16) (inBuf : Nat → UInt8) : RowState :=
  let s := diffuseLoop iPixelsPerRow inBuf iPixelsPerRow
    ⟨diffuseStart errBuf inBuf, 0, false, []⟩
  { s with
    diffusion := storeLast s.diffusion
    out := if s.second then s.out ++ [s.outvalue] else s.out }

/-! ## Rows -/

structure Spare where
  errors : Nat → Int16
  input : Nat → Nat → UInt8

/-- `gray2bi_getActualTraits`: `n` entries are set to zero. -/
def zeroErrBuf (n : Nat) (spare : Spare) (i : Nat) : Int16 := if i < n then 0 else spare.errors i

def inMemory {n : Nat} (row : Vector UInt8 n) (behind : Nat → UInt8) (i : Nat) : UInt8 :=
  if i < n then row.toList.getD i 0 else behind i

/-- `gray2bi_convert` for row `k` and the rows after it. -/
def convertFrom {n : Nat} (spare : Spare) :
    Nat → (Nat → Int16) → List (Vector UInt8 n) → List RowState
  | _, _, [] => []
  | k, errBuf, row :: rows =>
    let s := diffuseRow n errBuf (inMemory row (spare.input k))
    s :: convertFrom spare (k + 1) s.diffusion.errBuf rows

def convertRows {n : Nat} (spare : Spare) (rows : List (Vector UInt8 n)) : List RowState :=
  convertFrom spare 0 (zeroErrBuf n spare) rows

/-! ## The loop -/

section Loop

variable {n : Nat} {inBuf : Nat → UInt8} {s : RowState}

@[simp] theorem endNibble_diffusion (s : RowState) : (endNibble s).diffusion = s.diffusion := by
  rw [endNibble]
  split <;> rfl

theorem diffuseGroup_diffusion (s : RowState) :
    (diffuseGroup inBuf s).diffusion = (diffusePixel inBuf)^[4] s.diffusion := by
  rw [diffuseGroup, endNibble_diffusion]
  rfl

theorem diffuseGroup_inptr (inBuf : Nat → UInt8) (s : RowState) :
    (diffuseGroup inBuf s).diffusion.inptr = s.diffusion.inptr + 4 := by
  rw [diffuseGroup_diffusion]
  rfl

theorem diffuseLoop_eq {fuel : Nat} (hfuel : n - s.diffusion.inptr ≤ 4 * fuel) :
    diffuseLoop n inBuf fuel s
      = (diffuseGroup inBuf)^[(n - s.diffusion.inptr + 3) / 4] s := by
  induction fuel generalizing s with
  | zero =>
    rw [show n - s.diffusion.inptr = 0 by lia]
    rfl
  | succ fuel ih =>
    rw [diffuseLoop]
    by_cases hmore : s.diffusion.inptr < n
    · have hinptr := diffuseGroup_inptr inBuf s
      rw [if_pos hmore, ih (by lia), hinptr, ← Function.iterate_succ_apply]
      congr 1
      lia
    · rw [if_neg hmore, show n - s.diffusion.inptr = 0 by lia]
      rfl

theorem iterate_group_diffusion (k : Nat) (s : RowState) :
    ((diffuseGroup inBuf)^[k] s).diffusion = (diffusePixel inBuf)^[4 * k] s.diffusion := by
  induction k generalizing s with
  | zero => rfl
  | succ k ih =>
    rw [Function.iterate_succ_apply, ih, diffuseGroup_diffusion, ← Function.iterate_add_apply]
    congr 1

end Loop

/-- The state in which the loop of a row ends: the groups are those that fit in the row. -/
def groupsDone (n : Nat) (errBuf : Nat → Int16) (inBuf : Nat → UInt8) : RowState :=
  (diffuseGroup inBuf)^[n / 4] ⟨diffuseStart errBuf inBuf, 0, false, []⟩

theorem diffuseRow_eq (n : Nat) (errBuf : Nat → Int16) (inBuf : Nat → UInt8) :
    diffuseRow n errBuf inBuf =
      { groupsDone n errBuf inBuf with
        diffusion := storeLast (groupsDone n errBuf inBuf).diffusion
        out := if (groupsDone n errBuf inBuf).second then
          (groupsDone n errBuf inBuf).out ++ [(groupsDone n errBuf inBuf).outvalue]
        else (groupsDone n errBuf inBuf).out } := by
  have hloop : diffuseLoop n inBuf n ⟨diffuseStart errBuf inBuf, 0, false, []⟩
      = groupsDone n errBuf inBuf := by
    rw [diffuseLoop_eq (by simp only [diffuseStart]; lia), groupsDone]
    congr 1
    simp only [diffuseStart]
    lia
  rw [diffuseRow, hloop]

theorem groupsDone_diffusion (n : Nat) (errBuf : Nat → Int16) (inBuf : Nat → UInt8) :
    (groupsDone n errBuf inBuf).diffusion
      = (diffusePixel inBuf)^[4 * (n / 4)] (diffuseStart errBuf inBuf) :=
  iterate_group_diffusion _ _

/-! ## Bounds -/

/-- What 16 bits hold. -/
def Fits (v : Int) : Prop := -32768 ≤ v ∧ v < 32768

/-- Bounds on the errors in flight, whatever the error buffer holds, and on the log. -/
structure Bounded (s : Diffusion) : Prop where
  cur : -50693 ≤ s.cur ∧ s.cur ≤ 55027
  r : -38743 ≤ s.r ∧ s.r ≤ 42822
  rr : -32768 ≤ s.rr ∧ s.rr ≤ 36847
  b : -5975 ≤ s.b ∧ s.b ≤ 6230
  bl : -18180 ≤ s.bl ∧ s.bl ≤ 18180
  bll : -27143 ≤ s.bll ∧ s.bll ≤ 27143
  errs : ∀ e ∈ s.errs, |e| < 51200
  stores : ∀ v ∈ s.stores, Fits v

section Bounds

variable {inBuf : Nat → UInt8} {errBuf : Nat → Int16} {s : Diffusion}

theorem rawErr_bounds {cur : Int} (h : -50693 ≤ cur ∧ cur ≤ 55027) :
    -50693 ≤ rawErr cur ∧ rawErr cur ≤ 50947 := by
  rw [rawErr, black]
  by_cases hcur : cur - 0x800 < 0
  · rw [decide_eq_true hcur, if_pos rfl]
    lia
  · rw [decide_eq_false hcur, if_neg Bool.false_ne_true]
    lia

theorem damped_bounds {err : Int} (h : -50693 ≤ err ∧ err ≤ 50947) :
    -47800 ≤ damped err ∧ damped err ≤ 47800 := by
  rw [damped]
  lia

theorem pixel_bounds (p : UInt8) (e : Int16) :
    -32768 ≤ (p.toNat * 16 + e.toInt : Int) ∧ (p.toNat * 16 + e.toInt : Int) ≤ 36847 := by
  have hp := p.toNat_lt
  have hlow := e.le_toInt
  have hhigh := e.toInt_lt
  lia

theorem start_bounded : Bounded (diffuseStart errBuf inBuf) := by
  have hload (i : Nat) : -32768 ≤ loaded errBuf inBuf i ∧ loaded errBuf inBuf i ≤ 36847 :=
    pixel_bounds _ _
  constructor
  · have := hload 0
    simp only [diffuseStart]
    omega
  · have := hload 1
    simp only [diffuseStart]
    omega
  · exact hload 2
  · simp [diffuseStart]
  · simp [diffuseStart]
  · simp [diffuseStart]
  · exact nofun
  · exact nofun

/-- **One pixel** keeps the bounds: the weights of its error and the noise are all that is new. -/
theorem diffusePixel_bounded (h : Bounded s) : Bounded (diffusePixel inBuf s) := by
  have hraw := rawErr_bounds h.cur
  have herr := damped_bounds hraw
  have hnoise := Int.emod_nonneg (damped (rawErr s.cur)) (show (256 : Int) ≠ 0 by decide)
  have hnoise' := Int.emod_lt_of_pos (damped (rawErr s.cur)) (show (0 : Int) < 256 by decide)
  have hr := h.r
  have hrr := h.rr
  have hb := h.b
  have hbl := h.bl
  have hbll := h.bll
  constructor <;> simp only [diffusePixel]
  · lia
  · lia
  · exact pixel_bounds _ _
  · lia
  · lia
  · lia
  · intro e he
    rcases List.mem_append.mp he with he | he
    · exact h.errs e he
    · rw [abs_lt]
      rcases List.mem_pair.mp he with rfl | rfl <;> lia
  · intro v hv
    rcases List.mem_append.mp hv with hv | hv
    · exact h.stores v hv
    · rw [List.mem_singleton.mp hv, Fits]
      lia

theorem iterate_bounded (k : Nat) : Bounded ((diffusePixel inBuf)^[k] (diffuseStart errBuf inBuf)) := by
  induction k with
  | zero => exact start_bounded
  | succ k ih =>
    rw [Function.iterate_succ_apply']
    exact diffusePixel_bounded ih

theorem diffuseRow_fits (n : Nat) :
    (∀ v ∈ (diffuseRow n errBuf inBuf).diffusion.stores, Fits v) ∧
      ∀ e ∈ (diffuseRow n errBuf inBuf).diffusion.errs, |e| < 51200 := by
  have hdone : Bounded (groupsDone n errBuf inBuf).diffusion := by
    rw [groupsDone_diffusion]
    exact iterate_bounded _
  have hb := hdone.b
  have hbl := hdone.bl
  have hbll := hdone.bll
  rw [diffuseRow_eq]
  refine ⟨fun v hv => ?_, hdone.errs⟩
  rcases List.mem_append.mp hv with hv | hv
  · exact hdone.stores v hv
  · simp only [List.mem_cons, List.not_mem_nil, or_false] at hv
    rw [Fits]
    rcases hv with rfl | rfl | rfl <;> omega

end Bounds

theorem convertFrom_fits {n : Nat} (spare : Spare) (rows : List (Vector UInt8 n)) (k : Nat)
    (errBuf : Nat → Int16) : ∀ s ∈ convertFrom spare k errBuf rows,
      (∀ v ∈ s.diffusion.stores, Fits v) ∧ ∀ e ∈ s.diffusion.errs, |e| < 51200 := by
  induction rows generalizing k errBuf with
  | nil => exact fun s hs => absurd hs List.not_mem_nil
  | cons row rows ih =>
    intro s hs
    rcases List.mem_cons.mp hs with rfl | hs
    · exact diffuseRow_fits n
    · exact ih _ _ s hs

/-- **Stability.** In every run every value stored fits in its entry, so that none is cut, and
no error comes to the bound. -/
theorem stores_fit {n : Nat} (spare : Spare) (rows : List (Vector UInt8 n)) :
    ∀ s ∈ convertRows spare rows,
      (∀ v ∈ s.diffusion.stores, Fits v ∧ (Int16.ofInt v).toInt = v) ∧
        ∀ e ∈ s.diffusion.errs, |e| < 51200 := by
  intro s hs
  obtain ⟨hstores, herrs⟩ := convertFrom_fits spare rows 0 (zeroErrBuf n spare) s hs
  refine ⟨fun v hv => ?_, herrs⟩
  have hfits := hstores v hv
  exact ⟨hfits, Int16.toInt_ofInt_of_le hfits.1 hfits.2⟩

theorem stores_fit_black_row :
    (∀ v ∈ (diffuseRow 8 (zeroErrBuf 8 ⟨fun _ => -1, fun _ _ => 0⟩)
      (inMemory (Vector.replicate 8 0) fun _ => 0)).diffusion.stores,
      Fits v ∧ (Int16.ofInt v).toInt = v) ∧
    ∀ e ∈ (diffuseRow 8 (zeroErrBuf 8 ⟨fun _ => -1, fun _ _ => 0⟩)
      (inMemory (Vector.replicate 8 0) fun _ => 0)).diffusion.errs, |e| < 51200 :=
  stores_fit ⟨fun _ => -1, fun _ _ => 0⟩ [Vector.replicate 8 0] _ List.mem_cons_self

end Hplip.Ip.GrayToBi
