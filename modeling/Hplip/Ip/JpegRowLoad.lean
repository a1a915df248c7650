import Mathlib.Order.Monotone.Basic
import Hplip.Ip.JpegEncode
import Hplip.Lib.Moves

/-!
# Rows into the JPEG encoder (xjpg_enc.c)

`copy_in_rows` loads the samples of a row of pixels. It goes through the row four pixels at a time,
or eight where every other pixel is taken, and these loops do not look at the width before they go
round again; the general loop looks at it for every pixel.
-/

namespace Hplip.Ip.JpegEnc

open Moves

/-! ## The loops -/

/-- Four samples a round, which stand for `step` pixels. -/
def quadLoop (pixels step inc : Nat) (hstep : 0 < step) (col rowP inP : Nat) : List Move :=
  if col < pixels then
    ⟨rowP, inP⟩ :: ⟨rowP + 1, inP + inc⟩ :: ⟨rowP + 2, inP + inc + inc⟩
      :: ⟨rowP + 3, inP + inc + inc + inc⟩
      :: quadLoop pixels step inc hstep (col + step) (rowP + 4) (inP + inc + inc + inc + inc)
  else []
termination_by pixels - col

/-- The slow general case: of every `maxFac` pixels the first `samFac`. -/
def slowLoop (pixels inc samFac maxFac col rowP inP horizMod : Nat) : List Move :=
  if col < pixels then
    let horizMod' := if horizMod + 1 = maxFac then 0 else horizMod + 1
    if horizMod < samFac then
      ⟨rowP, inP⟩ :: slowLoop pixels inc samFac maxFac (col + 1) (rowP + 1) (inP + inc) horizMod'
    else slowLoop pixels inc samFac maxFac (col + 1) rowP (inP + inc) horizMod'
  else []
termination_by pixels - col

def copyMoves (g : Config) (comp : Nat) : List Move :=
  -- memcpy
  if g.compsInPixel = 1 then walk (·) (comp + ·) g.pixelsInRow
  else quadLoop g.pixelsInRow 4 g.compsInPixel (by lia) 0 0 comp

def everyOtherMoves (g : Config) (comp : Nat) : List Move :=
  quadLoop g.pixelsInRow 8 (2 * g.compsInPixel) (by lia) 0 0 comp

def slowMoves (g : Config) (comp : Nat) : List Move :=
  slowLoop g.pixelsInRow g.compsInPixel (g.horizSamFacs.getD comp 0) g.maxHorizSamFac 0 0 comp 0

def rowMoves (g : Config) (comp : Nat) : List Move :=
  let samFac := g.horizSamFacs.getD comp 0
  if samFac = g.maxHorizSamFac then copyMoves g comp
  else if samFac = 1 ∧ g.maxHorizSamFac = 2 then everyOtherMoves g comp
  else slowMoves g comp

/-- The bytes of the input that a call of `copy_in_rows` reads. -/
def readAt (g : Config) (rowIndex : Nat) : List Nat :=
  (List.range g.compsInPixel).flatMap fun comp =>
    if rowIndex % g.maxVertSamFac < g.vertSamFacs.getD comp 0 then (rowMoves g comp).map Move.src
    else []

/-- The components that have a sample in a row of pixels, each changed by `f`. -/
def loadComps (g : Config) (rowIndex : Nat) (f : Nat → Bytes → Bytes) (rows : Rows) : Rows :=
  (List.range g.compsInPixel).foldl (fun rows comp =>
    let samFac := g.vertSamFacs.getD comp 0
    if rowIndex % g.maxVertSamFac < samFac then
      setRow rows comp (rowIndex / g.maxVertSamFac * samFac + rowIndex % g.maxVertSamFac) (f comp)
    else rows) rows

/-- `copy_in_rows` without its fast cases. -/
def slowInRows (g : Config) (rowIndex : Nat) (inBuf : Bytes) (rows : Rows) : Rows :=
  loadComps g rowIndex (fun comp => run inBuf (slowMoves g comp)) rows

/-! ## What they store -/

def samples (pixels samFac maxFac : Nat) : Nat :=
  pixels / maxFac * samFac + min (pixels % maxFac) samFac

def pixelOf (samFac maxFac i : Nat) : Nat := i / samFac * maxFac + i % samFac

def stored (g : Config) (comp : Nat) : Nat :=
  let samFac := g.horizSamFacs.getD comp 0
  if samFac = g.maxHorizSamFac then
    if g.compsInPixel = 1 then g.pixelsInRow else (g.pixelsInRow + 3) / 4 * 4
  else if samFac = 1 ∧ g.maxHorizSamFac = 2 then (g.pixelsInRow + 7) / 8 * 4
  else samples g.pixelsInRow samFac g.maxHorizSamFac

section Loops

variable {pixels step inc samFac maxFac n col rowP inP : Nat}

theorem quadLoop_eq_walk (pixels inc col rowP inP : Nat) (hstep : 0 < step) :
    quadLoop pixels step inc hstep col rowP inP
      = walk (rowP + ·) (fun i => inP + i * inc) ((pixels - col + (step - 1)) / step * 4) := by
  induction hleft : (pixels - col + (step - 1)) / step generalizing col rowP inP with
  | zero =>
    have hzero := (Nat.div_eq_zero_iff_lt hstep).mp hleft
    rw [quadLoop, if_neg (by lia)]
    rfl
  | succ left ih =>
    have hcol : col < pixels := by
      by_contra hdone
      rw [Nat.sub_eq_zero_of_le (Nat.not_lt.mp hdone), Nat.zero_add,
        Nat.div_eq_of_lt (Nat.sub_lt hstep Nat.one_pos)] at hleft
      exact absurd hleft (Nat.succ_ne_zero left).symm
    have hrest : (pixels - (col + step) + (step - 1)) / step = left := by
      by_cases hlast : pixels - col ≤ step
      · have hone : (pixels - col + (step - 1)) / step = 1 :=
          (Nat.div_eq_iff hstep).mpr ⟨by lia, by lia⟩
        rw [Nat.sub_eq_zero_of_le (by lia), Nat.zero_add,
          Nat.div_eq_of_lt (Nat.sub_lt hstep Nat.one_pos)]
        lia
      · have hround : pixels - col + (step - 1) = pixels - (col + step) + (step - 1) + step := by
          lia
        rw [hround, Nat.add_div_right _ hstep] at hleft
        exact Nat.succ_injective hleft
    rw [quadLoop, if_pos hcol, ih _ _ _ hrest, Nat.succ_mul, walk_succ, walk_succ, walk_succ,
      walk_succ]
    have hsrc : ∀ i, inP + inc + inc + inc + inc + i * inc = inP + (i + 1 + 1 + 1 + 1) * inc := by
      intro i
      simp only [Nat.succ_mul]
      lia
    have hdst : ∀ i, rowP + 4 + i = rowP + (i + 1 + 1 + 1 + 1) := by
      intro i
      lia
    have hone : inP + (0 + 1) * inc = inP + inc := by lia
    have htwo : inP + (0 + 1 + 1) * inc = inP + inc + inc := by lia
    have hthree : inP + (0 + 1 + 1 + 1) * inc = inP + inc + inc + inc := by lia
    simp only [hsrc, hdst, hone, htwo, hthree, Nat.zero_mul, Nat.zero_add, Nat.add_zero]

theorem quadLoop_start (pixels inc inP : Nat) (hstep : 0 < step) :
    quadLoop pixels step inc hstep 0 0 inP
      = walk (·) (fun i => inP + i * inc) ((pixels + (step - 1)) / step * 4) := by
  simpa only [Nat.zero_add, Nat.sub_zero] using quadLoop_eq_walk pixels inc 0 0 inP hstep

theorem samples_succ (col : Nat) (hf : samFac ≤ maxFac) (hmax : 0 < maxFac) :
    samples (col + 1) samFac maxFac
      = samples col samFac maxFac + if col % maxFac < samFac then 1 else 0 := by
  have hdiv := Nat.div_add_mod col maxFac
  have hlt := Nat.mod_lt col hmax
  by_cases hwrap : col % maxFac + 1 = maxFac
  · have hnext : (col + 1) / maxFac = col / maxFac + 1 ∧ (col + 1) % maxFac = 0 := by
      refine (Nat.div_mod_unique hmax).mpr ⟨?_, hmax⟩
      rw [Nat.mul_add]
      lia
    rw [samples, samples, hnext.1, hnext.2, Nat.succ_mul]
    split <;> lia
  · have hnext : (col + 1) / maxFac = col / maxFac ∧ (col + 1) % maxFac = col % maxFac + 1 :=
      (Nat.div_mod_unique hmax).mpr ⟨by lia, by lia⟩
    rw [samples, samples, hnext.1, hnext.2]
    split <;> lia

theorem pixelOf_samples (h : col % maxFac < samFac) :
    pixelOf samFac maxFac (samples col samFac maxFac) = col := by
  have hdiv := Nat.div_add_mod' col maxFac
  have hsample : samples col samFac maxFac / samFac = col / maxFac
      ∧ samples col samFac maxFac % samFac = col % maxFac := by
    refine (Nat.div_mod_unique (Nat.zero_lt_of_lt h)).mpr ⟨?_, h⟩
    rw [samples, Nat.min_eq_left (Nat.le_of_lt h), Nat.mul_comm, Nat.add_comm]
  rw [pixelOf, hsample.1, hsample.2, hdiv]

theorem pixelOf_lt (hf : samFac ≤ maxFac) (hmax : 0 < maxFac) {i : Nat}
    (h : i < samples pixels samFac maxFac) : pixelOf samFac maxFac i < pixels := by
  induction pixels with
  | zero =>
    have hzero : samples 0 samFac maxFac = 0 := by simp [samples]
    exact absurd (hzero ▸ h) (Nat.not_lt_zero i)
  | succ pixels ih =>
    rw [samples_succ _ hf hmax] at h
    by_cases hi : i < samples pixels samFac maxFac
    · exact (ih hi).trans (Nat.lt_succ_self _)
    · split at h
      · rename_i hsampled
        have hlast : i = samples pixels samFac maxFac := by lia
        rw [hlast, pixelOf_samples hsampled]
        exact Nat.lt_succ_self _
      · exact absurd h hi

theorem samples_mono (hf : samFac ≤ maxFac) (hmax : 0 < maxFac) :
    Monotone fun pixels => samples pixels samFac maxFac :=
  monotone_nat_of_le_succ fun _ => (samples_succ _ hf hmax).symm ▸ Nat.le_add_right _ _

theorem slowLoop_eq_walk (pixels inc col inP : Nat) (hf : samFac ≤ maxFac) (hmax : 0 < maxFac) :
    slowLoop pixels inc samFac maxFac col (samples col samFac maxFac) (inP + col * inc)
        (col % maxFac)
      = walk (samples col samFac maxFac + ·)
          (fun i => inP + pixelOf samFac maxFac (samples col samFac maxFac + i) * inc)
          (samples pixels samFac maxFac - samples col samFac maxFac) := by
  induction hleft : pixels - col generalizing col with
  | zero =>
    have hge := samples_mono hf hmax (show pixels ≤ col by lia)
    rw [slowLoop, if_neg (by lia), Nat.sub_eq_zero_of_le hge]
    rfl
  | succ left ih =>
    have hnext : inP + col * inc + inc = inP + (col + 1) * inc := by
      rw [Nat.succ_mul, Nat.add_assoc]
    have hmod : (if col % maxFac + 1 = maxFac then 0 else col % maxFac + 1)
        = (col + 1) % maxFac := by
      have hdiv := Nat.div_add_mod col maxFac
      have hlt := Nat.mod_lt col hmax
      split
      · refine ((Nat.div_mod_unique (d := col / maxFac + 1) hmax).mpr ⟨?_, hmax⟩).2.symm
        rw [Nat.mul_add]
        lia
      · exact ((Nat.div_mod_unique (d := col / maxFac) hmax).mpr ⟨by lia, by lia⟩).2.symm
    have hsamples := samples_succ col hf hmax
    have hrest := ih (col + 1) (by lia)
    rw [slowLoop, if_pos (by lia)]
    simp only [hmod, hnext]
    split
    · rename_i hsampled
      rw [if_pos hsampled] at hsamples
      have hle : samples (col + 1) samFac maxFac ≤ samples pixels samFac maxFac :=
        samples_mono hf hmax (show col + 1 ≤ pixels by lia)
      have hcount : samples pixels samFac maxFac - samples col samFac maxFac
          = samples pixels samFac maxFac - samples (col + 1) samFac maxFac + 1 := by
        lia
      rw [← hsamples, hrest, hcount, walk_succ]
      simp only [hsamples, pixelOf_samples hsampled, Nat.add_zero, Nat.add_right_comm _ 1,
        Nat.add_assoc]
    · rename_i hskipped
      rw [if_neg hskipped, Nat.add_zero] at hsamples
      rw [hsamples] at hrest
      exact hrest

theorem slowLoop_start (pixels inc inP : Nat) (hf : samFac ≤ maxFac) (hmax : 0 < maxFac) :
    slowLoop pixels inc samFac maxFac 0 0 inP 0
      = walk (·) (fun i => inP + pixelOf samFac maxFac i * inc) (samples pixels samFac maxFac) := by
  have hzero : samples 0 samFac maxFac = 0 := by simp [samples]
  simpa only [hzero, Nat.zero_mul, Nat.zero_mod, Nat.add_zero, Nat.zero_add, Nat.sub_zero]
    using slowLoop_eq_walk pixels inc 0 inP hf hmax

end Loops

/-! ## A component -/

structure PixelRows (g : Config) : Prop where
  pixels : g.TakesPixels
  horiz : ∀ comp < g.compsInPixel,
    1 ≤ g.horizSamFacs.getD comp 0 ∧ g.horizSamFacs.getD comp 0 ≤ g.maxHorizSamFac
  vert : ∀ comp < g.compsInPixel, 1 ≤ g.vertSamFacs.getD comp 0

/-- The loop of a component ends with the row: a copying loop in rounds of four pixels, unless the
row is one `memcpy`, and the loop for every other pixel in rounds of eight, of which the last pixel
is not looked at. -/
def FitsComp (g : Config) (comp : Nat) : Prop :=
  (g.horizSamFacs.getD comp 0 = g.maxHorizSamFac → g.compsInPixel ≠ 1 → g.pixelsInRow % 4 = 0) ∧
    (g.horizSamFacs.getD comp 0 = 1 → g.maxHorizSamFac = 2 →
      g.pixelsInRow % 8 = 0 ∨ g.pixelsInRow % 8 = 7)

/-- **Widths that suit the loops.** -/
def FitsRow (g : Config) : Prop := ∀ comp < g.compsInPixel, FitsComp g comp

section Component

variable {g : Config} {comp : Nat}

theorem pixelOf_self {maxFac : Nat} (i : Nat) : pixelOf maxFac maxFac i = i :=
  Nat.div_add_mod' i maxFac

theorem pixelOf_half (i : Nat) : pixelOf 1 2 i = i * 2 := by
  rw [pixelOf, Nat.div_one, Nat.mod_one, Nat.add_zero]

theorem samples_self {maxFac : Nat} (hmax : 0 < maxFac) (pixels : Nat) :
    samples pixels maxFac maxFac = pixels := by
  have hlt := Nat.mod_lt pixels hmax
  rw [samples, Nat.min_eq_left (Nat.le_of_lt hlt), Nat.div_add_mod']

theorem samples_half (pixels : Nat) : samples pixels 1 2 = (pixels + 1) / 2 := by
  rw [samples]
  lia

/-- **The loops** take one sample after the other, from their pixels. -/
theorem rowMoves_eq_walk (hg : PixelRows g) (hcomp : comp < g.compsInPixel) :
    rowMoves g comp = walk (·)
      (fun i => comp + pixelOf (g.horizSamFacs.getD comp 0) g.maxHorizSamFac i * g.compsInPixel)
      (stored g comp) := by
  obtain ⟨hpos, hle⟩ := hg.horiz comp hcomp
  rw [rowMoves, stored]
  by_cases hall : g.horizSamFacs.getD comp 0 = g.maxHorizSamFac
  · rw [if_pos hall, if_pos hall, hall, copyMoves]
    simp only [pixelOf_self]
    split
    · rename_i hmono
      rw [hmono]
      simp only [Nat.mul_one]
    · exact quadLoop_start _ _ _ _
  rw [if_neg hall, if_neg hall]
  by_cases hhalf : g.horizSamFacs.getD comp 0 = 1 ∧ g.maxHorizSamFac = 2
  · rw [if_pos hhalf, if_pos hhalf, hhalf.1, hhalf.2, everyOtherMoves, quadLoop_start]
    simp only [pixelOf_half, Nat.mul_assoc]
  · rw [if_neg hhalf, if_neg hhalf]
    exact slowLoop_start _ _ _ hle (by lia)

theorem slowMoves_eq_walk (hg : PixelRows g) (hcomp : comp < g.compsInPixel) :
    slowMoves g comp = walk (·)
      (fun i => comp + pixelOf (g.horizSamFacs.getD comp 0) g.maxHorizSamFac i * g.compsInPixel)
      (samples g.pixelsInRow (g.horizSamFacs.getD comp 0) g.maxHorizSamFac) := by
  obtain ⟨hpos, hle⟩ := hg.horiz comp hcomp
  exact slowLoop_start _ _ _ hle (by lia)

theorem stored_eq (hg : PixelRows g) (hcomp : comp < g.compsInPixel) (h : FitsComp g comp) :
    stored g comp = samples g.pixelsInRow (g.horizSamFacs.getD comp 0) g.maxHorizSamFac := by
  obtain ⟨hpos, hle⟩ := hg.horiz comp hcomp
  rw [stored]
  by_cases hall : g.horizSamFacs.getD comp 0 = g.maxHorizSamFac
  · rw [if_pos hall, hall, samples_self (by lia)]
    split
    · rfl
    · have hwidth := h.1 hall ‹_›
      lia
  rw [if_neg hall]
  by_cases hhalf : g.horizSamFacs.getD comp 0 = 1 ∧ g.maxHorizSamFac = 2
  · rw [if_pos hhalf, hhalf.1, hhalf.2, samples_half]
    have hwidth := h.2 hhalf.1 hhalf.2
    lia
  · rw [if_neg hhalf]

theorem FitsComp.of_pixels (h : ∀ i < stored g comp,
    pixelOf (g.horizSamFacs.getD comp 0) g.maxHorizSamFac i < g.pixelsInRow) : FitsComp g comp := by
  constructor
  · intro hall hcomps
    rw [stored, if_pos hall, if_neg hcomps, hall] at h
    simp only [pixelOf_self] at h
    by_contra hwidth
    have hlast := h g.pixelsInRow (by lia)
    lia
  · intro hone htwo
    rw [stored, if_neg (by lia), if_pos ⟨hone, htwo⟩, hone, htwo] at h
    simp only [pixelOf_half] at h
    by_contra hwidth
    have hlast := h ((g.pixelsInRow + 7) / 8 * 4 - 1) (by lia)
    lia

theorem run_copyEvery (inBuf row : Bytes) (start inc count : Nat) :
    run inBuf (walk (·) (fun i => start + i * inc) count) row
      = copyEvery inBuf start inc count row := by
  funext col
  rw [run_fill, copyEvery, Nat.mul_comm inc]

theorem run_slowLoop (inBuf : Bytes) (start inc samFac maxFac left col next horizMod : Nat)
    (row : Bytes) :
    run inBuf (slowLoop (col + left) inc samFac maxFac col next (start + inc * col) horizMod) row
      = ((List.range' col left).foldl (fun (s : Bytes × Nat × Nat) col =>
          let (row, next, horizMod) := s
          let (row, next) :=
            if horizMod < samFac then
              (Function.update row next (inBuf (start + inc * col)), next + 1)
            else (row, next)
          (row, next, if horizMod + 1 = maxFac then 0 else horizMod + 1))
          (row, next, horizMod)).1 := by
  induction left generalizing col next horizMod row with
  | zero =>
    rw [slowLoop, if_neg (by lia)]
    rfl
  | succ left ih =>
    have hnext : start + inc * col + inc = start + inc * (col + 1) := by
      rw [Nat.mul_succ, Nat.add_assoc]
    have hend : col + (left + 1) = col + 1 + left := by lia
    rw [slowLoop, if_pos (by lia), List.range'_succ, List.foldl_cons]
    simp only [hnext, hend]
    split
    · exact ih ..
    · exact ih ..

theorem run_rowMoves (inBuf row : Bytes) :
    run inBuf (rowMoves g comp) row = copyRow g inBuf comp row := by
  rw [rowMoves, copyRow]
  by_cases hall : g.horizSamFacs.getD comp 0 = g.maxHorizSamFac
  · rw [if_pos hall, if_pos hall, copyMoves]
    split
    · simpa only [Nat.mul_one] using run_copyEvery inBuf row comp 1 g.pixelsInRow
    · rw [quadLoop_start, run_copyEvery]
  rw [if_neg hall, if_neg hall]
  by_cases hhalf : g.horizSamFacs.getD comp 0 = 1 ∧ g.maxHorizSamFac = 2
  · rw [if_pos hhalf, if_pos hhalf, everyOtherMoves, quadLoop_start, run_copyEvery]
  · rw [if_neg hhalf, if_neg hhalf, slowMoves, copySome, List.range_eq_range']
    simpa only [Nat.zero_add, Nat.mul_zero, Nat.add_zero] using run_slowLoop inBuf comp
      g.compsInPixel (g.horizSamFacs.getD comp 0) g.maxHorizSamFac g.pixelsInRow 0 0 0 row

end Component

/-! ## A row -/

section Row

variable {g : Config} {rowIndex : Nat} {rows : Rows} {inBuf inBuf' : Bytes}

theorem copyInRows_eq (h : g.TakesPixels) :
    copyInRows g rowIndex inBuf rows
      = (loadComps g rowIndex (fun comp => run inBuf (rowMoves g comp)) rows, 1,
          g.compsInPixel * g.pixelsInRow) := by
  have hrun : (fun comp => run inBuf (rowMoves g comp)) = copyRow g inBuf :=
    funext fun comp => funext fun row => run_rowMoves inBuf row
  rw [copyInRows, if_pos h, hrun]
  rfl

theorem loadComps_congr {f f' : Nat → Bytes → Bytes}
    (h : ∀ comp < g.compsInPixel, rowIndex % g.maxVertSamFac < g.vertSamFacs.getD comp 0 →
      f comp = f' comp) : loadComps g rowIndex f rows = loadComps g rowIndex f' rows := by
  refine List.foldl_ext _ _ rows ?_
  intro rows comp hcomp
  dsimp only
  split
  · rw [h comp (List.mem_range.mp hcomp) ‹_›]
  · rfl

theorem loadComps_keeps {f : Nat → Bytes → Bytes} {P : Nat → Bytes → Prop}
    (hf : ∀ comp < g.compsInPixel, ∀ b, P comp b → P comp (f comp b))
    (h : ∀ comp < g.compsInPixel, ∀ row, P comp (rows comp row)) :
    ∀ comp < g.compsInPixel, ∀ row, P comp (loadComps g rowIndex f rows comp row) := by
  refine List.foldlRecOn (motive := fun rows : Rows =>
    ∀ comp < g.compsInPixel, ∀ row, P comp (rows comp row)) _ _ h ?_
  intro rows hrows comp hcomp c hc row
  by_cases hmod : rowIndex % g.maxVertSamFac < g.vertSamFacs.getD comp 0
  · rw [if_pos hmod, setRow]
    by_cases hsame : c = comp
    · subst hsame
      rw [Function.update_self]
      by_cases hrow : row = rowIndex / g.maxVertSamFac * g.vertSamFacs.getD c 0
          + rowIndex % g.maxVertSamFac
      · subst hrow
        rw [Function.update_self]
        exact hf c hc _ (hrows c hc _)
      · rw [Function.update_of_ne hrow]
        exact hrows c hc row
    · rw [Function.update_of_ne hsame]
      exact hrows c hc row
  · rw [if_neg hmod]
    exact hrows c hc row

theorem mem_readAt {p : Nat} : p ∈ readAt g rowIndex ↔ ∃ comp < g.compsInPixel,
    rowIndex % g.maxVertSamFac < g.vertSamFacs.getD comp 0 ∧ ∃ v ∈ rowMoves g comp, v.src = p := by
  simp only [readAt, List.mem_flatMap, List.mem_range]
  constructor
  · rintro ⟨comp, hcomp, hp⟩
    split at hp
    · exact ⟨comp, hcomp, ‹_›, List.mem_map.mp hp⟩
    · exact absurd hp List.not_mem_nil
  · rintro ⟨comp, hcomp, hmod, hp⟩
    exact ⟨comp, hcomp, by rw [if_pos hmod]; exact List.mem_map.mpr hp⟩

theorem copyInRows_congr (h : g.TakesPixels) (hbuf : ∀ p ∈ readAt g rowIndex, inBuf p = inBuf' p) :
    copyInRows g rowIndex inBuf rows = copyInRows g rowIndex inBuf' rows := by
  rw [copyInRows_eq h, copyInRows_eq h]
  congr 1
  refine loadComps_congr fun comp hcomp hmod => funext fun row => run_congr fun v hv => ?_
  exact hbuf _ (mem_readAt.mpr ⟨comp, hcomp, hmod, v, hv, rfl⟩)

def WhiteBehind (g : Config) (rows : Rows) : Prop :=
  ∀ comp < g.compsInPixel, ∀ row col,
    samples g.pixelsInRow (g.horizSamFacs.getD comp 0) g.maxHorizSamFac ≤ col →
      rows comp row col = whitePixel comp

theorem whiteBehind_whiteRows (g : Config) : WhiteBehind g whiteRows := fun _ _ _ _ _ => rfl

section Fits

variable (hg : PixelRows g) (hfits : FitsRow g)
include hg hfits

theorem readAt_lt : ∀ p ∈ readAt g rowIndex, p < g.compsInPixel * g.pixelsInRow := by
  intro p hp
  obtain ⟨comp, hcomp, -, v, hv, rfl⟩ := mem_readAt.mp hp
  rw [rowMoves_eq_walk hg hcomp, stored_eq hg hcomp (hfits comp hcomp)] at hv
  obtain ⟨i, hi, rfl⟩ := mem_walk.mp hv
  obtain ⟨hpos, hle⟩ := hg.horiz comp hcomp
  have hpixel := pixelOf_lt hle (by lia) hi
  calc comp + pixelOf (g.horizSamFacs.getD comp 0) g.maxHorizSamFac i * g.compsInPixel
      < g.compsInPixel
        + pixelOf (g.horizSamFacs.getD comp 0) g.maxHorizSamFac i * g.compsInPixel :=
        Nat.add_lt_add_right hcomp _
    _ = g.compsInPixel * (pixelOf (g.horizSamFacs.getD comp 0) g.maxHorizSamFac i + 1) := by
        rw [Nat.mul_succ, Nat.mul_comm g.compsInPixel, Nat.add_comm]
    _ ≤ g.compsInPixel * g.pixelsInRow := Nat.mul_le_mul_left _ hpixel

theorem copyInRows_slow :
    (copyInRows g rowIndex inBuf rows).1 = slowInRows g rowIndex inBuf rows := by
  rw [copyInRows_eq hg.pixels]
  refine loadComps_congr fun comp hcomp _ => ?_
  rw [rowMoves_eq_walk hg hcomp, stored_eq hg hcomp (hfits comp hcomp),
    ← slowMoves_eq_walk hg hcomp]

theorem WhiteBehind.copyInRows (h : WhiteBehind g rows) :
    WhiteBehind g (copyInRows g rowIndex inBuf rows).1 := by
  rw [copyInRows_eq hg.pixels]
  refine loadComps_keeps (P := fun comp row => ∀ col,
    samples g.pixelsInRow (g.horizSamFacs.getD comp 0) g.maxHorizSamFac ≤ col →
      row col = whitePixel comp) ?_ h
  intro comp hcomp row hrow col hcol
  rw [rowMoves_eq_walk hg hcomp, stored_eq hg hcomp (hfits comp hcomp), run_fill,
    if_neg (Nat.not_lt.mpr hcol)]
  exact hrow col hcol

end Fits

theorem FitsRow.of_readAt (hg : PixelRows g)
    (h : ∀ p ∈ readAt g 0, p < g.compsInPixel * g.pixelsInRow) : FitsRow g := by
  intro comp hcomp
  refine FitsComp.of_pixels fun i hi => ?_
  by_contra hpixel
  have hread : comp + pixelOf (g.horizSamFacs.getD comp 0) g.maxHorizSamFac i * g.compsInPixel
      ∈ readAt g 0 := by
    refine mem_readAt.mpr ⟨comp, hcomp, ?_, ⟨i, _⟩, ?_, rfl⟩
    · rw [Nat.zero_mod]
      exact hg.vert comp hcomp
    · rw [rowMoves_eq_walk hg hcomp]
      exact mem_walk.mpr ⟨i, hi, rfl⟩
  have hlt := h _ hread
  have hmul := Nat.mul_le_mul_left g.compsInPixel (Nat.not_lt.mp hpixel)
  rw [Nat.mul_comm _ g.compsInPixel] at hlt
  lia

end Row

/-! ## A run -/

/-- A call of `jpgEncode_convert`: the next row or none, and the output buffer. -/
structure Call where
  inBuf : Option Bytes
  outputAvail : UInt32
  outBuf : Bytes

/-- Two calls whose rows have the same pixels; what stands behind them may differ. -/
structure SameRow (g : Config) (call call' : Call) : Prop where
  outputAvail : call.outputAvail = call'.outputAvail
  outBuf : call.outBuf = call'.outBuf
  inBuf : Option.Rel (fun buf buf' => ∀ p < g.compsInPixel * g.pixelsInRow, buf p = buf' p)
    call.inBuf call'.inBuf

def JencInst.nLoaded (g : JencInst) : Nat := g.rowsLoaded % g.cfg.rowsInMcu

/-- The row buffers as the next row finds them: white at the start of a row of MCUs. -/
def JencInst.cleared (g : JencInst) : Rows := if g.nLoaded = 0 then whiteRows else g.inRows

section Runs

variable (codeBlock : Bool → List UInt8 → Nat → List Int → Coder → Coder × List UInt8)

def Call.apply (g : JencInst) (call : Call) : JencInst :=
  (convert codeBlock g call.inBuf call.outputAvail call.outBuf).1

def after (g : JencInst) (calls : List Call) : JencInst := calls.foldl (Call.apply codeBlock) g

/-- Something holds whenever a row is loaded in a run, of the instance before and the row. -/
def EachRow (P : JencInst → Call → Bytes → Prop) : JencInst → List Call → Prop
  | _, [] => True
  | g, call :: calls =>
    (g.fDidHeader = true → g.loadingRows = true → ∀ buf, call.inBuf = some buf → P g call buf)
      ∧ EachRow P (call.apply codeBlock g) calls

/-- A row that is loaded well: no byte is read behind it, there is white behind its samples, and
these are the ones of the general case. -/
structure LoadsRow (g : JencInst) (call : Call) (buf : Bytes) : Prop where
  inside : ∀ p ∈ readAt g.cfg g.nLoaded, p < g.cfg.compsInPixel * g.cfg.pixelsInRow
  behind : WhiteBehind g.cfg (call.apply codeBlock g).inRows
  slow : (call.apply codeBlock g).inRows = slowInRows g.cfg g.nLoaded buf g.cleared

/-- **A run that looks only at the pixels of its rows.** -/
structure LooksAtRow (g : JencInst) (calls : List Call) : Prop where
  rows : EachRow codeBlock (LoadsRow codeBlock) g calls
  blind : ∀ calls', List.Forall₂ (SameRow g.cfg) calls calls' →
    (after codeBlock g calls').inRows = (after codeBlock g calls).inRows

/-- A run in which no row is loaded. -/
def NoRow (g : JencInst) (calls : List Call) : Prop :=
  EachRow codeBlock (fun _ _ _ => False) g calls

/-- An instance that has been set up and not been called yet. -/
structure Ready (g : JencInst) : Prop where
  header : g.fDidHeader = false
  rows : PixelRows g.cfg.complete

variable {c : Config} {g : JencInst} {call : Call} {calls : List Call} {buf : Bytes}

theorem sendMcus_keeps (avail : UInt32) (g : JencInst) (out : List UInt8) :
    (sendMcus codeBlock avail g out).1.inRows = g.inRows
      ∧ (sendMcus codeBlock avail g out).1.cfg = g.cfg
      ∧ (sendMcus codeBlock avail g out).1.rowsLoaded = g.rowsLoaded
      ∧ (sendMcus codeBlock avail g out).1.fDidHeader = g.fDidHeader := by
  induction g, out using sendMcus.induct codeBlock avail with
  | case1 g out hroom ih =>
    rw [sendMcus, if_pos hroom]
    exact ih
  | case2 g out hroom =>
    rw [sendMcus, if_neg hroom]
    exact ⟨rfl, rfl, rfl, rfl⟩

theorem loadRows_some (g : JencInst) (buf : Bytes) (r : Reply) :
    loadRows g (some buf) r = takeRow { g with inRows := g.cleared } g.nLoaded buf r := by
  rw [loadRows, JencInst.cleared, JencInst.nLoaded]
  split <;> rfl

theorem loadRows_none (g : JencInst) (r : Reply) :
    loadRows g none r = flush { g with inRows := g.cleared } g.nLoaded r := by
  rw [loadRows, JencInst.cleared, JencInst.nLoaded]
  split <;> rfl

theorem apply_header (h : g.fDidHeader = false) :
    call.apply codeBlock g = (initHeader g call.outBuf).1 := by
  rw [Call.apply, convert, if_pos h]

theorem apply_sending (hheader : g.fDidHeader = true) (h : g.loadingRows = false) :
    call.apply codeBlock g = (sendMcus codeBlock call.outputAvail g []).1 := by
  simp [Call.apply, convert, hheader, h]

theorem apply_loading (hheader : g.fDidHeader = true) (h : g.loadingRows = true) :
    ∃ r, ∀ call : Call, call.apply codeBlock g = (sendMcus codeBlock call.outputAvail
      (loadRows g call.inBuf r).1 (loadRows g call.inBuf r).2.output).1 := by
  refine ⟨⟨false, false, 0, g.dwInNextPos, [], g.dwOutNextPos⟩, fun call => ?_⟩
  simp [Call.apply, convert, hheader, h]

theorem apply_row (hheader : g.fDidHeader = true) (h : g.loadingRows = true)
    (hbuf : call.inBuf = some buf) :
    (call.apply codeBlock g).inRows = (copyInRows g.cfg g.nLoaded buf g.cleared).1
      ∧ (call.apply codeBlock g).cfg = g.cfg ∧ (call.apply codeBlock g).fDidHeader = true := by
  obtain ⟨r, hr⟩ := apply_loading codeBlock hheader h
  rw [hr, hbuf, loadRows_some]
  obtain ⟨hrows, hcfg, -, hdone⟩ := sendMcus_keeps codeBlock call.outputAvail
    (takeRow { g with inRows := g.cleared } g.nLoaded buf r).1
    (takeRow { g with inRows := g.cleared } g.nLoaded buf r).2.output
  exact ⟨hrows, hcfg, hdone.trans hheader⟩

theorem apply_flush (hheader : g.fDidHeader = true) (h : g.loadingRows = true)
    (hbuf : call.inBuf = none) :
    (call.apply codeBlock g).inRows = g.cleared ∧ (call.apply codeBlock g).cfg = g.cfg
      ∧ (call.apply codeBlock g).fDidHeader = true := by
  obtain ⟨r, hr⟩ := apply_loading codeBlock hheader h
  rw [hr, hbuf, loadRows_none]
  obtain ⟨hrows, hcfg, -, hdone⟩ := sendMcus_keeps codeBlock call.outputAvail
    (flush { g with inRows := g.cleared } g.nLoaded r).1
    (flush { g with inRows := g.cleared } g.nLoaded r).2.output
  rw [hrows, hcfg, hdone, flush]
  split
  · exact ⟨rfl, rfl, hheader⟩
  · split
    · exact ⟨rfl, rfl, hheader⟩
    · exact ⟨rfl, rfl, hheader⟩

theorem EachRow.mono {P Q : JencInst → Call → Bytes → Prop} (hPQ : ∀ g call buf, P g call buf →
    Q g call buf) (h : EachRow codeBlock P g calls) : EachRow codeBlock Q g calls := by
  induction calls generalizing g with
  | nil => trivial
  | cons call calls ih =>
    exact ⟨fun hheader hload buf hbuf => hPQ _ _ _ (h.1 hheader hload buf hbuf), ih h.2⟩

/-! ### Two runs -/

def Blind (g : JencInst) (buf : Bytes) : Prop :=
  ∀ buf' : Bytes, (∀ p < g.cfg.compsInPixel * g.cfg.pixelsInRow, buf p = buf' p) →
    copyInRows g.cfg g.nLoaded buf g.cleared = copyInRows g.cfg g.nLoaded buf' g.cleared

theorem apply_congr {call' : Call} (hsame : SameRow g.cfg call call')
    (h : g.fDidHeader = true → g.loadingRows = true → ∀ buf, call.inBuf = some buf → Blind g buf) :
    call'.apply codeBlock g = call.apply codeBlock g := by
  cases hheader : g.fDidHeader with
  | false => rw [apply_header codeBlock hheader, apply_header codeBlock hheader, hsame.outBuf]
  | true =>
    cases hload : g.loadingRows with
    | false =>
      rw [apply_sending codeBlock hheader hload, apply_sending codeBlock hheader hload,
        hsame.outputAvail]
    | true =>
      obtain ⟨r, hr⟩ := apply_loading codeBlock hheader hload
      rw [hr, hr, hsame.outputAvail]
      have hinBuf := hsame.inBuf
      cases hbuf : call.inBuf with
      | none =>
        cases hbuf' : call'.inBuf with
        | none => rfl
        | some buf' =>
          rw [hbuf, hbuf'] at hinBuf
          cases hinBuf
      | some buf =>
        cases hbuf' : call'.inBuf with
        | none =>
          rw [hbuf, hbuf'] at hinBuf
          cases hinBuf
        | some buf' =>
          rw [hbuf, hbuf'] at hinBuf
          cases hinBuf with
          | some hagree =>
            rw [loadRows_some, loadRows_some, takeRow, takeRow]
            have hcopy := h hheader hload buf hbuf buf' hagree
            simp only [hcopy]

theorem apply_cfg (call : Call) (hheader : g.fDidHeader = true) :
    (call.apply codeBlock g).cfg = g.cfg ∧ (call.apply codeBlock g).fDidHeader = true := by
  cases hload : g.loadingRows with
  | false =>
    obtain ⟨-, hcfg, -, hdone⟩ := sendMcus_keeps codeBlock call.outputAvail g []
    rw [apply_sending codeBlock hheader hload]
    exact ⟨hcfg, hdone.trans hheader⟩
  | true =>
    cases hbuf : call.inBuf with
    | none => exact (apply_flush codeBlock hheader hload hbuf).2
    | some buf => exact (apply_row codeBlock hheader hload hbuf).2

theorem after_congr {calls' : List Call} (hsame : List.Forall₂ (SameRow c) calls calls')
    (hcfg : c.compsInPixel = g.cfg.compsInPixel ∧ c.pixelsInRow = g.cfg.pixelsInRow)
    (h : EachRow codeBlock (fun g _ buf => Blind g buf) g calls) :
    after codeBlock g calls' = after codeBlock g calls := by
  induction hsame generalizing g with
  | nil => rfl
  | @cons call call' calls calls' hcall hcalls ih =>
    have hcall' : SameRow g.cfg call call' := by
      refine ⟨hcall.outputAvail, hcall.outBuf, ?_⟩
      rw [← hcfg.1, ← hcfg.2]
      exact hcall.inBuf
    have hstep := apply_congr codeBlock hcall' h.1
    have hnext : c.compsInPixel = (call.apply codeBlock g).cfg.compsInPixel
        ∧ c.pixelsInRow = (call.apply codeBlock g).cfg.pixelsInRow := by
      cases hheader : g.fDidHeader with
      | false =>
        rw [apply_header codeBlock hheader]
        exact hcfg
      | true =>
        rw [(apply_cfg codeBlock call hheader).1]
        exact hcfg
    rw [after, after, List.foldl_cons, List.foldl_cons, hstep]
    exact ih hnext h.2

/-! ### Rows that fit -/

/-- What a run keeps: a row set that has been begun is white behind its samples. -/
structure Clean (c : Config) (g : JencInst) : Prop where
  header : g.fDidHeader = true
  cfg : g.cfg = c
  white : g.nLoaded = 0 ∨ WhiteBehind c g.inRows

theorem Clean.cleared (h : Clean c g) : WhiteBehind c g.cleared := by
  rw [JencInst.cleared]
  split
  · exact whiteBehind_whiteRows c
  · exact h.white.resolve_left ‹_›

section Fits

variable (hc : PixelRows c) (hfits : FitsRow c)
include hc hfits

theorem Clean.apply (h : Clean c g) (call : Call) : Clean c (call.apply codeBlock g) := by
  obtain ⟨hcfg, hheader⟩ := apply_cfg codeBlock call h.header
  refine ⟨hheader, hcfg.trans h.cfg, ?_⟩
  cases hload : g.loadingRows with
  | false =>
    obtain ⟨hrows, -, hloaded, -⟩ := sendMcus_keeps codeBlock call.outputAvail g []
    rw [← apply_sending codeBlock h.header hload] at hrows hloaded
    rw [JencInst.nLoaded, hloaded, hcfg, hrows]
    exact h.white
  | true =>
    right
    cases hbuf : call.inBuf with
    | none =>
      rw [(apply_flush codeBlock h.header hload hbuf).1]
      exact h.cleared
    | some buf =>
      rw [(apply_row codeBlock h.header hload hbuf).1, h.cfg]
      exact h.cleared.copyInRows hc hfits

theorem Clean.loadsRow (h : Clean c g) (hload : g.loadingRows = true)
    (hbuf : call.inBuf = some buf) : LoadsRow codeBlock g call buf := by
  obtain ⟨hrows, hcfg, -⟩ := apply_row codeBlock h.header hload hbuf
  have hcleared := h.cleared
  obtain ⟨-, rfl, -⟩ := h
  constructor
  · exact readAt_lt hc hfits
  · rw [hrows]
    exact hcleared.copyInRows hc hfits
  · rw [hrows]
    exact copyInRows_slow hc hfits

theorem Clean.blind (h : Clean c g) (buf : Bytes) : Blind g buf := by
  intro buf' hagree
  obtain ⟨-, rfl, -⟩ := h
  exact copyInRows_congr hc.pixels fun p hp => hagree p (readAt_lt hc hfits p hp)

theorem Clean.eachRow {P : JencInst → Call → Bytes → Prop}
    (hP : ∀ g call buf, Clean c g → g.loadingRows = true → call.inBuf = some buf → P g call buf)
    (h : Clean c g) : EachRow codeBlock P g calls := by
  induction calls generalizing g with
  | nil => trivial
  | cons call calls ih =>
    exact ⟨fun _ hload buf hbuf => hP g call buf h hload hbuf, ih (h.apply codeBlock hc hfits call)⟩

end Fits

/-! ### A row that does not -/

structure Fresh (c : Config) (g : JencInst) : Prop where
  header : g.fDidHeader = true
  cfg : g.cfg = c
  loading : g.loadingRows = true
  loaded : g.rowsLoaded = 0

theorem Fresh.flush (h : Fresh c g) (hbuf : call.inBuf = none) :
    Fresh c (call.apply codeBlock g) := by
  obtain ⟨r, hr⟩ := apply_loading codeBlock h.header h.loading
  have hzero : g.nLoaded = 0 := by rw [JencInst.nLoaded, h.loaded, Nat.zero_mod]
  -- nothing is sent while rows are loaded
  have hidle : ∀ (g : JencInst) (out : List UInt8), Fresh c g →
      Fresh c (sendMcus codeBlock call.outputAvail g out).1 := by
    intro g out hg
    rw [sendMcus, if_neg]
    · exact hg
    · rintro ⟨hsend, -⟩
      rw [hg.loading] at hsend
      cases hsend
  rw [hr, hbuf, loadRows_none, hzero, JpegEnc.flush, if_neg (not_not_intro rfl)]
  split
  · exact hidle _ _ ⟨h.header, h.cfg, h.loading, h.loaded⟩
  · exact hidle _ _ ⟨h.header, h.cfg, h.loading, h.loaded⟩

theorem Fresh.fits (hc : PixelRows c) (h : Fresh c g)
    (hrun : EachRow codeBlock (LoadsRow codeBlock) g calls) :
    NoRow codeBlock g calls ∨ FitsRow c := by
  induction calls generalizing g with
  | nil => exact .inl trivial
  | cons call calls ih =>
    cases hbuf : call.inBuf with
    | none =>
      refine (ih (h.flush codeBlock hbuf) hrun.2).imp_left fun hno => ⟨?_, hno⟩
      intro _ _ buf hbuf'
      rw [hbuf] at hbuf'
      cases hbuf'
    | some buf =>
      right
      have hinside := (hrun.1 h.header h.loading buf hbuf).inside
      rw [JencInst.nLoaded, h.loaded, Nat.zero_mod, h.cfg] at hinside
      exact FitsRow.of_readAt hc hinside

/-- **The encoder looks only at the pixels of its rows** in a run, unless a row is loaded whose
width does not suit the loops. -/
theorem looksAtRow_iff (hg : Ready g) (calls : List Call) :
    LooksAtRow codeBlock g calls ↔ NoRow codeBlock g calls ∨ FitsRow g.cfg.complete := by
  constructor
  · rintro ⟨hrows, -⟩
    cases calls with
    | nil => exact .inl trivial
    | cons call calls =>
      have hfresh : Fresh g.cfg.complete (call.apply codeBlock g) := by
        rw [apply_header codeBlock hg.header]
        exact ⟨rfl, rfl, rfl, rfl⟩
      refine (hfresh.fits codeBlock hg.rows hrows.2).imp_left fun hno => ⟨?_, hno⟩
      intro hheader
      rw [hg.header] at hheader
      cases hheader
  · intro h
    have hboth : EachRow codeBlock (LoadsRow codeBlock) g calls
        ∧ EachRow codeBlock (fun g _ buf => Blind g buf) g calls := by
      rcases h with hno | hfits
      · exact ⟨hno.mono codeBlock fun _ _ _ h => h.elim, hno.mono codeBlock fun _ _ _ h => h.elim⟩
      cases calls with
      | nil => exact ⟨trivial, trivial⟩
      | cons call calls =>
        have hclean : Clean g.cfg.complete (call.apply codeBlock g) := by
          rw [apply_header codeBlock hg.header]
          exact ⟨rfl, rfl, .inl (Nat.zero_mod _)⟩
        have hfirst : g.fDidHeader ≠ true := by
          rw [hg.header]
          exact Bool.false_ne_true
        exact ⟨⟨fun hheader => absurd hheader hfirst,
            hclean.eachRow codeBlock hg.rows hfits fun _ _ _ h hload hbuf =>
              h.loadsRow codeBlock hg.rows hfits hload hbuf⟩,
          ⟨fun hheader => absurd hheader hfirst,
            hclean.eachRow codeBlock hg.rows hfits fun _ _ buf h _ _ => h.blind hg.rows hfits buf⟩⟩
    refine ⟨hboth.1, fun calls' hsame => ?_⟩
    rw [after_congr codeBlock hsame ⟨rfl, rfl⟩ hboth.2]

end Runs

/-- A colour encoder for rows of some width, its chroma subsampled by default. -/
def colorEncoder (width : Nat) : JencInst :=
  { openXform with cfg := { openXform.cfg with compsInPixel := 3, pixelsInRow := width } }

theorem colorEncoder_ready (width : Nat) : Ready (colorEncoder width) := by
  have hfactors : ∀ comp < 3, 1 ≤ [2, 1, 1, 0].getD comp 0 ∧ [2, 1, 1, 0].getD comp 0 ≤ 2 := by
    decide
  have hhoriz : (colorEncoder width).cfg.complete.horizSamFacs = [2, 1, 1, 0] := by
    show factors (colorFactors / 65536) = _
    decide
  have hvert : (colorEncoder width).cfg.complete.vertSamFacs = [2, 1, 1, 0] := by
    show factors (colorFactors % 65536) = _
    decide
  have hmax : (colorEncoder width).cfg.complete.maxHorizSamFac = 2 := by
    show maxFactor (factors (colorFactors / 65536)) = _
    decide
  refine ⟨rfl, ⟨.inl rfl, ?_, ?_⟩⟩
  · rw [hhoriz, hmax]
    exact hfactors
  · rw [hvert]
    exact fun comp hcomp => (hfactors comp hcomp).1

/-- Rows of eight pixels suit all the loops. -/
theorem looksAtRow_eight : LooksAtRow (fun _ _ _ _ c => (c, [])) (colorEncoder 8)
    [⟨none, 0, fun _ => 0⟩, ⟨some fun _ => 0, 0, fun _ => 0⟩] :=
  (looksAtRow_iff _ (colorEncoder_ready 8) _).mpr
    (.inr fun _ _ => ⟨fun _ _ => rfl, fun _ _ => .inl rfl⟩)

/-- A row of one pixel is read up to its fourth. -/
theorem colorEncoder_one_reads_on : ¬ LooksAtRow (fun _ _ _ _ c => (c, [])) (colorEncoder 1)
    [⟨none, 0, fun _ => 0⟩, ⟨some fun _ => 0, 0, fun _ => 0⟩] := by
  intro h
  have hinside := (h.rows.2.1 rfl rfl (fun _ => 0) rfl).inside
  have hread : 9 ∈ readAt (colorEncoder 1).cfg.complete 0 := by
    refine mem_readAt.mpr ⟨0, by decide, by decide, ⟨3, 9⟩, ?_, rfl⟩
    rw [rowMoves_eq_walk (colorEncoder_ready 1).rows (by decide)]
    exact mem_walk.mpr ⟨3, by decide, rfl⟩
  exact absurd (hinside 9 hread) (by decide)

end Hplip.Ip.JpegEnc
