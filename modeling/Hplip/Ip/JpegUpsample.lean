import Mathlib.Algebra.Order.Group.Nat
import Mathlib.Data.Nat.ModEq
import Hplip.Lib.Moves

/-!
# Rows out of the JPEG decoder (xjpg_dec.c)

The samples of a row of MCUs stand in row buffers, one set for each component, without
replication. `copy_out_rows` sends one row of pixels: each component goes through the output with
the stride of a pixel and repeats samples where it was subsampled.
-/

namespace Hplip.Ip.JpegDec

open Moves

/-! ## The code -/

/-- What `copy_out_rows` reads of `JDEC_INST`. The width stands in 16 bits of the frame header,
so the size of a row does not overflow. -/
structure RowsOut where
  outRowsAp : Nat → Nat → Nat → UInt8
  numComps : Nat
  iPixelsPerRow : Nat
  horizSampFacs : Nat → Nat
  vertSampFacs : Nat → Nat
  maxHorizSampFac : Nat
  maxVertSampFac : Nat
  comps : 1 ≤ numComps ∧ numComps ≤ 4
  width : 0 < iPixelsPerRow
  horiz : ∀ comp < numComps, 1 ≤ horizSampFacs comp ∧ horizSampFacs comp ≤ 4
  vert : ∀ comp < numComps, 1 ≤ vertSampFacs comp ∧ vertSampFacs comp ≤ 4
  maxHoriz : IsGreatest {f | ∃ comp < numComps, f = horizSampFacs comp} maxHorizSampFac
  maxVert : IsGreatest {f | ∃ comp < numComps, f = vertSampFacs comp} maxVertSampFac

def copyLoop (width numComps col outP rowP : Nat) : List Move :=
  if col < width then
    ⟨outP, rowP⟩ :: copyLoop width numComps (col + 1) (outP + numComps) (rowP + 1)
  else []
termination_by width - col

def doubleLoop (width numComps col outP rowP : Nat) : List Move :=
  if col < width then
    ⟨outP, rowP⟩ :: ⟨outP + numComps, rowP⟩
      :: doubleLoop width numComps (col + 2) (outP + numComps + numComps) (rowP + 1)
  else []
termination_by width - col

/-- The slow general case: of every `maxFac` pixels the first `sampFac` are samples, the others
repeat the last of these. -/
def slowLoop (width numComps sampFac maxFac col outP rowP horizMod : Nat) : List Move :=
  if col < width then
    let horizMod' := if horizMod + 1 = maxFac then 0 else horizMod + 1
    if horizMod < sampFac then
      ⟨outP, rowP⟩
        :: slowLoop width numComps sampFac maxFac (col + 1) (outP + numComps) (rowP + 1) horizMod'
    else
      ⟨outP, rowP - 1⟩
        :: slowLoop width numComps sampFac maxFac (col + 1) (outP + numComps) rowP horizMod'
  else []
termination_by width - col

def compMoves (g : RowsOut) (comp : Nat) : List Move :=
  let sampFac := g.horizSampFacs comp
  if sampFac = g.maxHorizSampFac then
    -- memcpy
    if g.numComps = 1 then walk (comp + ·) (·) g.iPixelsPerRow
    else copyLoop g.iPixelsPerRow g.numComps 0 comp 0
  else if sampFac = 1 ∧ g.maxHorizSampFac = 2 then
    doubleLoop g.iPixelsPerRow g.numComps 0 comp 0
  else slowLoop g.iPixelsPerRow g.numComps sampFac g.maxHorizSampFac 0 comp 0 0

def rowOf (g : RowsOut) (rowIndex comp : Nat) : Nat :=
  let vertPeriod := rowIndex / g.maxVertSampFac
  let vertMod := rowIndex % g.maxVertSampFac
  let sampFac := g.vertSampFacs comp
  vertPeriod * sampFac + (if vertMod < sampFac then vertMod else sampFac - 1)

/-- `copy_out_rows` without `output_subsampled`: the output, the number of rows, the number of
bytes. -/
def copyOutRows (g : RowsOut) (rowIndex : Nat) (outbuf : Nat → UInt8) :
    (Nat → UInt8) × Nat × Nat :=
  ((List.range g.numComps).foldl
      (fun out comp => run (g.outRowsAp comp (rowOf g rowIndex comp)) (compMoves g comp) out)
      outbuf,
    1, g.numComps * g.iPixelsPerRow)

def storedAt (g : RowsOut) : List Nat :=
  (List.range g.numComps).flatMap fun comp => (compMoves g comp).map Move.dst

/-- `jpgDecode_getActualBufSizes`: the output buffer that it asks for. -/
def rowBufLen (g : RowsOut) : Nat := g.numComps * g.iPixelsPerRow

/-! ## What a row should be -/

def sampleCol (sampFac maxFac x : Nat) : Nat :=
  x / maxFac * sampFac + min (x % maxFac) (sampFac - 1)

/-- Just the bytes that are reported and asked for are stored, and each is the sample of its
component for its pixel. -/
structure Upsamples (g : RowsOut) (rowIndex : Nat) : Prop where
  stores : ∀ outbuf p, p ∈ storedAt g ↔ p < (copyOutRows g rowIndex outbuf).2.2
  asked : ∀ outbuf, (copyOutRows g rowIndex outbuf).2.2 = rowBufLen g
  bytes : ∀ outbuf, ∀ comp < g.numComps, ∀ x < g.iPixelsPerRow,
    (copyOutRows g rowIndex outbuf).1 (comp + x * g.numComps)
      = g.outRowsAp comp
          (sampleCol (g.vertSampFacs comp) g.maxVertSampFac rowIndex)
          (sampleCol (g.horizSampFacs comp) g.maxHorizSampFac x)

/-- Some component has its pixels doubled, two at a time over an odd width. -/
def DoublesOdd (g : RowsOut) : Prop :=
  g.iPixelsPerRow % 2 = 1 ∧ g.maxHorizSampFac = 2 ∧ ∃ comp < g.numComps, g.horizSampFacs comp = 1

/-! ## The loops -/

section Loops

variable {width n f maxFac p x : Nat}

theorem succ_wraps (h : x % maxFac + 1 = maxFac) :
    (x + 1) / maxFac = x / maxFac + 1 ∧ (x + 1) % maxFac = 0 := by
  have hdiv := Nat.div_add_mod x maxFac
  refine (Nat.div_mod_unique (by lia)).mpr ⟨?_, by lia⟩
  rw [Nat.mul_add]
  lia

theorem succ_stays (hmax : 0 < maxFac) (h : x % maxFac + 1 ≠ maxFac) :
    (x + 1) / maxFac = x / maxFac ∧ (x + 1) % maxFac = x % maxFac + 1 := by
  have hdiv := Nat.div_add_mod x maxFac
  have hlt := Nat.mod_lt x hmax
  exact (Nat.div_mod_unique hmax).mpr ⟨by lia, by lia⟩

theorem copyLoop_eq_walk (width n p x : Nat) :
    copyLoop width n x (p + x * n) x = walk (fun i => p + (x + i) * n) (x + ·) (width - x) := by
  induction hleft : width - x generalizing x with
  | zero => rw [copyLoop, if_neg (by lia)]; rfl
  | succ left ih =>
    have hnext : p + x * n + n = p + (x + 1) * n := by rw [Nat.succ_mul, Nat.add_assoc]
    rw [copyLoop, if_pos (by lia), hnext, ih (x + 1) (by lia), walk_succ]
    simp only [Nat.add_zero, Nat.add_right_comm x 1, Nat.add_assoc]

theorem doubleLoop_eq_walk (width n p x rowP : Nat) :
    doubleLoop width n x (p + x * n) rowP
      = walk (fun i => p + (x + i) * n) (rowP + · / 2) ((width - x + 1) / 2 * 2) := by
  induction hleft : (width - x + 1) / 2 generalizing x rowP with
  | zero => rw [doubleLoop, if_neg (by lia)]; rfl
  | succ left ih =>
    have hnext : p + x * n + n = p + (x + 1) * n := by rw [Nat.succ_mul, Nat.add_assoc]
    have hnext' : p + (x + 1) * n + n = p + (x + 2) * n := by
      rw [Nat.succ_mul (x + 1), Nat.add_assoc]
    have hhalf : ∀ i, rowP + 1 + i / 2 = rowP + (i + 2) / 2 := by
      intro i
      lia
    rw [doubleLoop, if_pos (by lia), hnext, hnext', ih (x + 2) (rowP + 1) (by lia),
      Nat.succ_mul left, walk_succ, walk_succ]
    simp only [hhalf, Nat.add_zero, Nat.add_right_comm x 2, Nat.add_assoc]
    rfl

theorem slowLoop_eq_walk (width n p x : Nat) (hf : 1 ≤ f) (hmax : f ≤ maxFac) :
    slowLoop width n f maxFac x (p + x * n) (x / maxFac * f + min (x % maxFac) f) (x % maxFac)
      = walk (fun i => p + (x + i) * n) (fun i => sampleCol f maxFac (x + i)) (width - x) := by
  induction hleft : width - x generalizing x with
  | zero => rw [slowLoop, if_neg (by lia)]; rfl
  | succ left ih =>
    have hnext : p + x * n + n = p + (x + 1) * n := by rw [Nat.succ_mul, Nat.add_assoc]
    -- the counters in the next column
    have hmod : (if x % maxFac + 1 = maxFac then 0 else x % maxFac + 1) = (x + 1) % maxFac := by
      split
      · exact (succ_wraps ‹_›).2.symm
      · exact (succ_stays (by lia) ‹_›).2.symm
    have hrow : (x + 1) / maxFac * f + min ((x + 1) % maxFac) f
        = if x % maxFac < f then x / maxFac * f + min (x % maxFac) f + 1
          else x / maxFac * f + min (x % maxFac) f := by
      by_cases hwrap : x % maxFac + 1 = maxFac
      · rw [(succ_wraps hwrap).1, (succ_wraps hwrap).2, Nat.succ_mul]
        split <;> lia
      · rw [(succ_stays (by lia) hwrap).1, (succ_stays (by lia) hwrap).2]
        split <;> lia
    have hrest := ih (x + 1) (by lia)
    rw [hrow] at hrest
    rw [slowLoop, if_pos (by lia), walk_succ]
    simp only [hmod, hnext]
    split <;> rename_i hsample
    · rw [if_pos hsample] at hrest
      rw [hrest]
      have hcol : x / maxFac * f + min (x % maxFac) f = sampleCol f maxFac x := by
        rw [sampleCol]
        lia
      simp only [hcol, Nat.add_zero, Nat.add_right_comm x 1, Nat.add_assoc]
    · rw [if_neg hsample] at hrest
      rw [hrest]
      have hcol : x / maxFac * f + min (x % maxFac) f - 1 = sampleCol f maxFac x := by
        rw [sampleCol]
        lia
      simp only [hcol, Nat.add_zero, Nat.add_right_comm x 1, Nat.add_assoc]

end Loops

/-! ## A component -/

section Component

variable {g : RowsOut} {comp rowIndex : Nat}

def pixelsMoved (g : RowsOut) (comp : Nat) : Nat :=
  if g.horizSampFacs comp = 1 ∧ g.maxHorizSampFac = 2 then (g.iPixelsPerRow + 1) / 2 * 2
  else g.iPixelsPerRow

theorem RowsOut.horiz_le (g : RowsOut) (h : comp < g.numComps) :
    g.horizSampFacs comp ≤ g.maxHorizSampFac :=
  g.maxHoriz.2 ⟨comp, h, rfl⟩

theorem sampleCol_self {maxFac : Nat} (hmax : 0 < maxFac) (x : Nat) :
    sampleCol maxFac maxFac x = x := by
  have hlt := Nat.mod_lt x hmax
  rw [sampleCol, Nat.min_eq_left (by lia)]
  exact Nat.div_add_mod' x maxFac

theorem sampleCol_half (x : Nat) : sampleCol 1 2 x = x / 2 := by
  rw [sampleCol]
  lia

/-- **The three loops** store the same samples. -/
theorem compMoves_eq_walk (h : comp < g.numComps) :
    compMoves g comp = walk (fun x => comp + x * g.numComps)
      (sampleCol (g.horizSampFacs comp) g.maxHorizSampFac) (pixelsMoved g comp) := by
  have hpos := (g.horiz comp h).1
  have hle := g.horiz_le h
  by_cases hall : g.horizSampFacs comp = g.maxHorizSampFac
  · have hcols : sampleCol (g.horizSampFacs comp) g.maxHorizSampFac = fun x => x := by
      rw [hall]
      exact funext (sampleCol_self (by lia))
    have hdouble : ¬ (g.horizSampFacs comp = 1 ∧ g.maxHorizSampFac = 2) := by lia
    rw [compMoves, if_pos hall, hcols, pixelsMoved, if_neg hdouble]
    split
    · rename_i hmono
      simp only [hmono, Nat.mul_one]
    · simpa using copyLoop_eq_walk g.iPixelsPerRow g.numComps comp 0
  by_cases hdouble : g.horizSampFacs comp = 1 ∧ g.maxHorizSampFac = 2
  · rw [compMoves, if_neg hall, if_pos hdouble, pixelsMoved, if_pos hdouble, hdouble.1, hdouble.2,
      funext sampleCol_half]
    simpa using doubleLoop_eq_walk g.iPixelsPerRow g.numComps comp 0 0
  · rw [compMoves, if_neg hall, if_neg hdouble, pixelsMoved, if_neg hdouble]
    simpa using slowLoop_eq_walk g.iPixelsPerRow g.numComps comp 0 hpos hle

theorem mem_storedAt {p : Nat} :
    p ∈ storedAt g
      ↔ ∃ comp < g.numComps, ∃ x < pixelsMoved g comp, p = comp + x * g.numComps := by
  simp only [storedAt, List.mem_flatMap, List.mem_range, List.mem_map]
  constructor
  · rintro ⟨comp, hcomp, v, hv, rfl⟩
    rw [compMoves_eq_walk hcomp, mem_walk] at hv
    obtain ⟨x, hx, rfl⟩ := hv
    exact ⟨comp, hcomp, x, hx, rfl⟩
  · rintro ⟨comp, hcomp, x, hx, rfl⟩
    refine ⟨comp, hcomp, ⟨_, sampleCol (g.horizSampFacs comp) g.maxHorizSampFac x⟩, ?_, rfl⟩
    rw [compMoves_eq_walk hcomp]
    exact mem_walk.mpr ⟨x, hx, rfl⟩

theorem place_inj {n c c' x x' : Nat} (hc : c < n) (hc' : c' < n)
    (h : c + x * n = c' + x' * n) : c = c' ∧ x = x' := by
  have hmod := congrArg (· % n) h
  have hdiv := congrArg (· / n) h
  simp only [Nat.add_mul_mod_self_right, Nat.mod_eq_of_lt hc, Nat.mod_eq_of_lt hc'] at hmod
  simp only [Nat.add_mul_div_right _ _ (Nat.zero_lt_of_lt hc), Nat.div_eq_of_lt hc,
    Nat.div_eq_of_lt hc', Nat.zero_add] at hdiv
  exact ⟨hmod, hdiv⟩

theorem rowOf_eq : rowOf g rowIndex comp
    = sampleCol (g.vertSampFacs comp) g.maxVertSampFac rowIndex := by
  rw [rowOf, sampleCol]
  split <;> lia

theorem width_le_pixelsMoved : g.iPixelsPerRow ≤ pixelsMoved g comp := by
  rw [pixelsMoved]
  split <;> lia

theorem foldl_byte {k : Nat} (hk : k ≤ g.numComps) {comp x : Nat} (hcomp : comp < k)
    (hx : x < g.iPixelsPerRow) (outbuf : Nat → UInt8) :
    (List.range k).foldl
        (fun out comp => run (g.outRowsAp comp (rowOf g rowIndex comp)) (compMoves g comp) out)
        outbuf (comp + x * g.numComps)
      = g.outRowsAp comp (rowOf g rowIndex comp)
          (sampleCol (g.horizSampFacs comp) g.maxHorizSampFac x) := by
  induction k with
  | zero => exact absurd hcomp (Nat.not_lt_zero _)
  | succ k ih =>
    rw [List.range_succ, List.foldl_append, List.foldl_cons, List.foldl_nil,
      compMoves_eq_walk (Nat.lt_of_succ_le hk)]
    rcases Nat.lt_succ_iff_lt_or_eq.mp hcomp with hlt | rfl
    · rw [run_other]
      · exact ih (Nat.le_of_succ_le hk) hlt
      · rintro v hv hdst
        obtain ⟨y, -, rfl⟩ := mem_walk.mp hv
        have hsame := place_inj (Nat.lt_of_succ_le hk) (by lia) hdst
        lia
    · refine run_cell ⟨_, mem_walk.mpr ⟨x, hx.trans_le width_le_pixelsMoved, rfl⟩, rfl⟩ ?_
      rintro v hv hdst
      obtain ⟨y, -, rfl⟩ := mem_walk.mp hv
      rw [(place_inj (Nat.lt_of_succ_le hk) (Nat.lt_of_succ_le hk) hdst).2]

end Component

/-! ## A row -/

section Row

variable {g : RowsOut}

theorem pixelsMoved_eq (h : ¬ DoublesOdd g) {comp : Nat} (hcomp : comp < g.numComps) :
    pixelsMoved g comp = g.iPixelsPerRow := by
  rw [pixelsMoved]
  split
  · rename_i hdouble
    by_cases hodd : g.iPixelsPerRow % 2 = 1
    · exact absurd ⟨hodd, hdouble.2, comp, hcomp, hdouble.1⟩ h
    · lia
  · rfl

theorem mem_row {n w p : Nat} (hn : 0 < n) :
    (∃ comp < n, ∃ x < w, p = comp + x * n) ↔ p < n * w := by
  constructor
  · rintro ⟨comp, hcomp, x, hx, rfl⟩
    calc comp + x * n < n + x * n := Nat.add_lt_add_right hcomp _
      _ = n * (x + 1) := by rw [Nat.mul_succ, Nat.mul_comm n x, Nat.add_comm]
      _ ≤ n * w := Nat.mul_le_mul_left n hx
  · intro hp
    exact ⟨p % n, Nat.mod_lt p hn, p / n, Nat.div_lt_of_lt_mul hp, (Nat.mod_add_div' p n).symm⟩

/-- **Up-sampling a row**, for every row of the MCU: it is right unless some component has its
pixels doubled over an odd width, and then a pixel is stored behind the row. -/
theorem upsamples_iff (g : RowsOut) (rowIndex : Nat) : Upsamples g rowIndex ↔ ¬ DoublesOdd g := by
  have hcomps : 0 < g.numComps := g.comps.1
  constructor
  · rintro ⟨hstores, -, -⟩ ⟨hodd, hmax, comp, hcomp, hone⟩
    have hmoved : g.iPixelsPerRow < pixelsMoved g comp := by
      rw [pixelsMoved, if_pos ⟨hone, hmax⟩]
      lia
    have hbeyond := (hstores (fun _ => 0) _).mp
      (mem_storedAt.mpr ⟨comp, hcomp, g.iPixelsPerRow, hmoved, rfl⟩)
    have hsize : (copyOutRows g rowIndex fun _ => 0).2.2 = g.numComps * g.iPixelsPerRow := rfl
    rw [hsize, Nat.mul_comm] at hbeyond
    lia
  · intro hdoubles
    constructor
    · intro outbuf p
      rw [mem_storedAt]
      show _ ↔ p < g.numComps * g.iPixelsPerRow
      rw [← mem_row hcomps]
      refine exists_congr fun comp => and_congr_right fun hcomp => ?_
      rw [pixelsMoved_eq hdoubles hcomp]
    · intro outbuf
      rfl
    · intro outbuf comp hcomp x hx
      rw [← rowOf_eq]
      exact foldl_byte (Nat.le_refl _) hcomp hx outbuf

def oneColumn : RowsOut where
  outRowsAp := fun comp _ _ => UInt8.ofNat comp
  numComps := 3
  iPixelsPerRow := 1
  horizSampFacs := fun comp => if comp = 0 then 2 else 1
  vertSampFacs := fun _ => 1
  maxHorizSampFac := 2
  maxVertSampFac := 1
  comps := ⟨by lia, by lia⟩
  width := Nat.one_pos
  horiz := fun comp _ => by split <;> lia
  vert := fun _ _ => ⟨Nat.le_refl 1, by lia⟩
  maxHoriz := by
    constructor
    · exact ⟨0, by lia, rfl⟩
    · rintro f ⟨comp, -, rfl⟩
      split <;> lia
  maxVert := by
    constructor
    · exact ⟨0, by lia, rfl⟩
    · rintro f ⟨comp, -, rfl⟩
      exact Nat.le_refl 1

/-- Five bytes are stored where the row has three. -/
theorem oneColumn_overruns : ¬ Upsamples oneColumn 0 := by
  intro h
  have hlt := (h.stores (fun _ => 0) 4).mp
    (mem_storedAt.mpr ⟨1, show 1 < 3 by lia, 1, show 1 < 2 by lia, rfl⟩)
  exact absurd hlt (show ¬ 4 < 3 by lia)

end Row

end Hplip.Ip.JpegDec
