import Mathlib
import Hplip.Hpcups.ErrorDiffusion

/-!
# What one ink plane sees of the others (Halftoner.cpp)

The planes of a raster lie behind each other, and a plane whose width is not
divisible by 8 is diffused together with the first pixels of the next one. All
planes draw their thresholds from one generator, and white pixels that are skipped
draw none. Nothing else passes from one plane to another.
-/

namespace Hplip.Hpcups.Halftoner

open Loop Machine Diffuser

/-! ## A row sees its own pixels -/

section Row

variable {p : DitherParms} {g : Nat} {d : Diffuser} {input : Mem}

theorem At.cell (h : At p g d) {k : Nat} (hk : 8 * g + k < numLoop p) :
    (d.inputPtr + dir p * k).toNat < numLoop p := by
  obtain ⟨hlow, hhigh⟩ := place_range p hk
  rw [h.inputPtr, ← place_add]
  lia

theorem doNext8Pixels_congr (h : At p g d) (hagree : ∀ x < numLoop p, p.fInput x = input x) :
    doNext8Pixels p { d with pixelCount := short (d.pixelCount - 8) }
      = doNext8Pixels { p with fInput := input }
          { d with pixelCount := short (d.pixelCount - 8) } := by
  have hcount := h.pixelCount
  unfold doNext8Pixels
  dsimp only
  split
  · unfold sixteenPixelsNonWhite
    rw [Bool.eq_iff_iff, List.any_eq_true, List.any_eq_true]
    refine exists_congr fun k => and_congr_right fun hk => ?_
    have hk' : 8 * g + k < numLoop p := by
      have := List.mem_range.mp hk
      lia
    rw [hagree _ (h.cell hk')]
    rfl
  · rfl

theorem group_congr (h : At p g d) (hg : 8 * (g + 1) ≤ numLoop p)
    (hagree : ∀ x < numLoop p, p.fInput x = input x) :
    group p d = group { p with fInput := input } d := by
  have hpixels : next8Pixels p { d with pixelCount := short (d.pixelCount - 8) }
      = next8Pixels { p with fInput := input }
          { d with pixelCount := short (d.pixelCount - 8) } := by
    rw [next8Pixels_eq, next8Pixels_eq]
    refine pixels_congr (masks p) _ fun k hk => hagree _ (h.cell ?_)
    rw [masks_length] at hk
    lia
  unfold group
  dsimp only
  rw [doNext8Pixels_congr h hagree, hpixels]
  rfl

end Row

theorem of_lt_groups {p : DitherParms} {g : Nat} (hg : g < groups p) :
    numLoop p < 32768 ∧ 8 * (g + 1) ≤ numLoop p := by
  by_cases hlt : numLoop p < 32768
  · rw [groups, if_pos hlt] at hg
    exact ⟨hlt, by lia⟩
  · rw [groups, if_neg hlt] at hg
    exact absurd hg (Nat.not_lt_zero g)

theorem start_input (p : DitherParms) (input : Mem) (r : UInt32) :
    start { p with fInput := input } r = start p r := rfl

/-- **A row sees the pixels that it counts.** -/
theorem hteDiffOpen_congr (p : DitherParms) (r : UInt32) (h8 : 8 ∣ numLoop p) {input : Mem}
    (hagree : ∀ x < numLoop p, p.fInput x = input x) :
    hteDiffOpen p r = hteDiffOpen { p with fInput := input } r := by
  have hall : ∀ g ≤ groups p, (group p)^[g] (start p r)
      = (group { p with fInput := input })^[g] (start { p with fInput := input } r) := by
    intro g hg
    induction g with
    | zero =>
      rw [Function.iterate_zero_apply, Function.iterate_zero_apply]
      exact (start_input p input r).symm
    | succ g ih =>
      obtain ⟨hlt, hcount⟩ := of_lt_groups hg
      rw [Function.iterate_succ_apply', Function.iterate_succ_apply',
        ← ih (Nat.le_of_succ_le hg)]
      exact group_congr (at_iterate hlt (Nat.le_of_succ_le hg)) hcount hagree
  have hgroups : groups { p with fInput := input } = groups p := rfl
  rw [hteDiffOpen_eq p r h8, hteDiffOpen_eq { p with fInput := input } r h8, hgroups,
    hall _ (Nat.le_refl _)]

/-! ## What a row draws -/

/-- Group `g` of the row is diffused, not skipped. -/
def isDiffused (p : DitherParms) (g : Nat) : Bool :=
  decide (numLoop p ≤ 8 * g + 16) || sixteenPixelsNonWhite (dir p) p.fInput (place p (8 * g))

def rowDraws (p : DitherParms) : Nat := 8 * (List.range (groups p)).countP (isDiffused p)

theorem doNext8Pixels_eq {p : DitherParms} {g : Nat} {d : Diffuser} (h : At p g d) :
    doNext8Pixels p { d with pixelCount := short (d.pixelCount - 8) } = isDiffused p g := by
  have hcount := h.pixelCount
  unfold doNext8Pixels isDiffused
  dsimp only
  rw [hcount, h.inputPtr]
  by_cases hmany : numLoop p ≤ 8 * g + 16
  · rw [if_neg (by lia), decide_eq_true hmany, Bool.true_or]
  · rw [if_pos (by lia), decide_eq_false hmany, Bool.false_or]

theorem group_holdRandom {p : DitherParms} {g : Nat} {d : Diffuser} (h : At p g d) :
    (group p d).holdRandom
      = nextRandom^[if isDiffused p g then 8 else 0] d.holdRandom := by
  unfold group
  dsimp only
  rw [doNext8Pixels_eq h]
  split
  · rw [(emit_frame _ _ _).2.2.2.1, next8Pixels_eq, pixels_holdRandom, masks_length]
  · have hclear := (clearError_iterate (dir p) 8 (emit (dir p) p.fHifipe
      { d with
        pixelCount := short (d.pixelCount - 8)
        inputPtr := d.inputPtr + 8 * dir p
        rasterByte1 := 0
        rasterByte2 := 0 })).2.2.1
    exact hclear.trans (emit_frame _ _ _).2.2.2.1

/-- **What a row draws** is decided by its pixels. -/
theorem hteDiffOpen_holdRandom (p : DitherParms) (r : UInt32) (h8 : 8 ∣ numLoop p) :
    Returns (hteDiffOpen p r) fun d => d.holdRandom = nextRandom^[rowDraws p] r := by
  rw [hteDiffOpen_eq p r h8]
  refine Returns.pure ?_
  have hall : ∀ g ≤ groups p, ((group p)^[g] (start p r)).holdRandom
      = nextRandom^[8 * (List.range g).countP (isDiffused p)] r := by
    intro g hg
    induction g with
    | zero => rfl
    | succ g ih =>
      obtain ⟨hlt, -⟩ := of_lt_groups hg
      rw [Function.iterate_succ_apply', group_holdRandom (at_iterate hlt (Nat.le_of_succ_le hg)),
        ih (Nat.le_of_succ_le hg), ← Function.iterate_add_apply, List.range_succ,
        List.countP_append, List.countP_singleton, Nat.mul_add, Nat.add_comm]
      split <;> rfl
  exact hall _ (Nat.le_refl _)

/-! ## Expanding the input -/

theorem multiplyPixel_eq (factor : Nat) (buffer : Mem) (j x : Nat) :
    multiplyPixel factor buffer j x
      = if j * factor ≤ x ∧ x < j * factor + factor then buffer j else buffer x := by
  have hrow : ∀ n ≤ factor, ∀ x,
      (List.range n).foldl (fun b k => Function.update b (j * factor + k) (b j)) buffer x
        = if j * factor ≤ x ∧ x < j * factor + n then buffer j else buffer x := by
    intro n
    induction n with
    | zero =>
      intro _ x
      exact (if_neg (by lia)).symm
    | succ n ih =>
      intro hn x
      rw [List.range_succ, List.foldl_append, List.foldl_cons, List.foldl_nil]
      have hself := ih (Nat.le_of_succ_le hn) j
      rw [ite_self] at hself
      by_cases hx : x = j * factor + n
      · rw [hx, Function.update_self, hself, if_pos (by lia)]
      · rw [Function.update_of_ne hx, ih (Nat.le_of_succ_le hn) x]
        by_cases hcell : j * factor ≤ x ∧ x < j * factor + n
        · rw [if_pos hcell, if_pos (by lia)]
        · rw [if_neg hcell, if_neg (by lia)]
  exact hrow factor (Nat.le_refl _) x

/-- **Expanding**: every pixel of the row stands `factor` times, and the cells
behind are left alone. By induction on the pixels that are done, the last first. -/
theorem pixelMultiply_eq (buffer : Mem) (width : Nat) {factor : Nat} (hfactor : 0 < factor)
    (x : Nat) : pixelMultiply buffer width factor x
      = if x < width * factor then buffer (x / factor) else buffer x := by
  unfold pixelMultiply
  split
  · next hone =>
    rw [hone, Nat.div_one, ite_self]
  have hloop : ∀ (n : Nat) (b : Mem), n ≤ width →
      (∀ x, b x = if n * factor ≤ x ∧ x < width * factor then buffer (x / factor)
        else buffer x) →
      ∀ x, (List.range n).reverse.foldl (multiplyPixel factor) b x
        = if x < width * factor then buffer (x / factor) else buffer x := by
    intro n
    induction n with
    | zero =>
      intro b _ hb x
      rw [List.range_zero, List.reverse_nil, List.foldl_nil, hb]
      simp
    | succ n ih =>
      intro b hn hb x
      rw [List.range_succ, List.reverse_append, List.reverse_singleton, List.singleton_append,
        List.foldl_cons]
      refine ih _ (Nat.le_of_succ_le hn) (fun y => ?_) x
      have hend : (n + 1) * factor = n * factor + factor := Nat.succ_mul n factor
      have hle : (n + 1) * factor ≤ width * factor := Nat.mul_le_mul_right factor hn
      have hown : n ≤ n * factor := Nat.le_mul_of_pos_right n hfactor
      rw [multiplyPixel_eq, hb, hb]
      by_cases hcell : n * factor ≤ y ∧ y < n * factor + factor
      · -- the pixel itself has not been overwritten yet
        have hdiv : y / factor = n :=
          Nat.div_eq_of_lt_le hcell.1 (by rw [hend]; exact hcell.2)
        rw [if_pos hcell, if_neg (by lia), if_pos (by lia), hdiv]
      · rw [if_neg hcell]
        by_cases hdone : (n + 1) * factor ≤ y ∧ y < width * factor
        · rw [if_pos hdone, if_pos (by lia)]
        · rw [if_neg hdone, if_neg (by lia)]
  exact hloop width buffer (Nat.le_refl _)
    (fun y => (if_neg (by lia)).symm) x

/-! ## What a plane sees -/

namespace Config

variable (cfg : Config)

/-- The pixels of a row of plane `i`. -/
def numpix (i : Nat) : Nat :=
  if cfg.outputWidth i > cfg.adjustedInputWidth then cfg.outputWidth i
  else cfg.adjustedInputWidth

/-- The row that plane `i` of a raster is diffused from: the pixels expanded, with
zeros behind them, or the pixels and what lies behind them in the raster. -/
def seen (raster : Mem) (i x : Nat) : UInt8 :=
  if cfg.outputWidth i > cfg.adjustedInputWidth then
    if x < cfg.inputWidth * cfg.factor i then raster (cfg.offset i + x / cfg.factor i) else 0
  else raster (cfg.offset i + x)

theorem le_adjustedInputWidth : cfg.inputWidth ≤ cfg.adjustedInputWidth := by
  unfold adjustedInputWidth
  split <;> omega

theorem numpix_dvd (i : Nat) : 8 ∣ cfg.numpix i := by
  unfold numpix
  split
  · exact cfg.outputWidth_dvd i
  · exact cfg.adjustedInputWidth_dvd

variable {cfg}

theorem factor_of_wide {i : Nat} (h : cfg.outputWidth i > cfg.adjustedInputWidth) :
    0 < cfg.factor i ∧ cfg.inputWidth * cfg.factor i ≤ cfg.outputWidth i := by
  have hactive : cfg.Active i := by
    by_contra hnot
    rw [outputWidth, if_neg hnot] at h
    exact Nat.not_lt_zero _ h
  have hwidth : cfg.outputWidth i = cfg.adjustedInputWidth * cfg.factor i := by
    rw [outputWidth, if_pos hactive, factor, Nat.mul_assoc]
  constructor
  · by_contra hnot
    rw [hwidth, Nat.eq_zero_of_not_pos hnot] at h
    exact Nat.not_lt_zero _ h
  · rw [hwidth]
    exact Nat.mul_le_mul_right _ cfg.le_adjustedInputWidth

end Config

variable {cfg : Config}

theorem expand_eq_seen {i : Nat} (hwide : cfg.outputWidth i > cfg.adjustedInputWidth)
    (raster tempBuffer : Mem) {x : Nat} (hx : x < cfg.outputWidth i) :
    expand cfg i (fun x => raster (cfg.offset i + x)) tempBuffer x = cfg.seen raster i x := by
  obtain ⟨hpos, hfill⟩ := Config.factor_of_wide hwide
  have hown : cfg.inputWidth ≤ cfg.inputWidth * cfg.factor i := Nat.le_mul_of_pos_right _ hpos
  rw [expand, pixelMultiply_eq _ _ hpos, Config.seen, if_pos hwide]
  by_cases hpixel : x < cfg.inputWidth * cfg.factor i
  · have hdiv : x / cfg.factor i < cfg.inputWidth := Nat.div_lt_of_lt_mul (by rwa [Nat.mul_comm])
    have hcell := blit_add (memset tempBuffer 0 (cfg.outputWidth i)) 0
      (fun x => raster (cfg.offset i + x)) hdiv
    rw [Nat.zero_add] at hcell
    exact (if_pos hpixel).trans (hcell.trans (if_pos hpixel).symm)
  · have hzero := blit_add tempBuffer 0 (fun _ => (0 : UInt8)) hx
    rw [Nat.zero_add] at hzero
    refine (if_neg hpixel).trans (Eq.trans ?_ (if_neg hpixel).symm)
    rw [blit_of_not_mem (Or.inr (by omega)), memset, hzero]

theorem expand_behind {i : Nat} (hwide : cfg.outputWidth i > cfg.adjustedInputWidth)
    (raster tempBuffer : Mem) {x : Nat} (hx : cfg.outputWidth i ≤ x) :
    expand cfg i raster tempBuffer x = tempBuffer x := by
  obtain ⟨hpos, hfill⟩ := Config.factor_of_wide hwide
  have hown : cfg.inputWidth ≤ cfg.inputWidth * cfg.factor i := Nat.le_mul_of_pos_right _ hpos
  rw [expand, pixelMultiply_eq _ _ hpos]
  refine (if_neg ?_).trans ?_
  · show ¬ x < cfg.inputWidth * cfg.factor i
    lia
  · rw [blit_of_not_mem (Or.inr (by lia)), memset, blit_of_not_mem (Or.inr (by lia))]

/-- The random numbers of plane `i` of a raster. -/
def planeDraws (cfg : Config) (s : State) (raster : Mem) (i : Nat) : Nat :=
  cfg.numRows i * rowDraws (ditherParms cfg i 0 (cfg.numpix i) (cfg.seen raster i) s)

/-- The random numbers of the planes in front of plane `i`. -/
def drawsBefore (cfg : Config) (s : State) (raster : Mem) (i : Nat) : Nat :=
  ((cfg.planes.takeWhile fun j => j != i).map (planeDraws cfg (nextRaster s) raster)).sum

theorem rowDraws_congr {p q : DitherParms} (hloop : numLoop p = numLoop q)
    (hdir : p.fRasterEvenOrOdd = q.fRasterEvenOrOdd)
    (hagree : ∀ x < numLoop p, p.fInput x = q.fInput x) : rowDraws p = rowDraws q := by
  have hgroups : groups p = groups q := by
    rw [groups, groups, hloop]
  have hdir' : dir p = dir q := by
    rw [dir, dir, hdir]
  have hplace : ∀ k, place p k = place q k := by
    intro k
    rw [place, place, hdir, hloop]
  have hgroup : ∀ g ∈ List.range (groups q), isDiffused p g = isDiffused q g := by
    intro g _
    unfold isDiffused
    rw [hloop, hdir', hplace]
    by_cases hfew : numLoop q ≤ 8 * g + 16
    · rw [decide_eq_true hfew, Bool.true_or, Bool.true_or]
    · rw [decide_eq_false hfew, Bool.false_or, Bool.false_or]
      unfold sixteenPixelsNonWhite
      rw [Bool.eq_iff_iff, List.any_eq_true, List.any_eq_true]
      refine exists_congr fun k => and_congr_right fun hk => ?_
      have hk' : 8 * g + k < numLoop p := by
        have := List.mem_range.mp hk
        lia
      obtain ⟨hlow, hhigh⟩ := place_range p hk'
      rw [place_add, hplace, hdir'] at hlow hhigh
      rw [hagree _ (by lia)]
  rw [rowDraws, rowDraws, hgroups, List.countP_congr fun g hg => by rw [hgroup g hg]]

/-! ## One plane at a time -/

/-- Two states that plane `i` cannot tell apart, the random numbers excepted. -/
structure Same (cfg : Config) (i : Nat) (s t : State) : Prop where
  errBuff : s.errBuff i = t.errBuff i
  colorPlane : s.colorPlane i = t.colorPlane i
  nNextRaster : s.nNextRaster = t.nNextRaster
  originalKData : s.originalKData = t.originalKData
  tempBuffer : ∀ x, cfg.outputWidth K ≤ x → s.tempBuffer x = t.tempBuffer x

theorem Same.refl (i : Nat) (s : State) : Same cfg i s s :=
  ⟨rfl, rfl, rfl, rfl, fun _ _ => rfl⟩

theorem Same.symm {i : Nat} {s t : State} (h : Same cfg i s t) : Same cfg i t s :=
  ⟨h.errBuff.symm, h.colorPlane.symm, h.nNextRaster.symm, h.originalKData.symm,
    fun x hx => (h.tempBuffer x hx).symm⟩

theorem Same.trans {i : Nat} {s t u : State} (h : Same cfg i s t) (h' : Same cfg i t u) :
    Same cfg i s u :=
  ⟨h.errBuff.trans h'.errBuff, h.colorPlane.trans h'.colorPlane,
    h.nNextRaster.trans h'.nNextRaster, h.originalKData.trans h'.originalKData,
    fun x hx => (h.tempBuffer x hx).trans (h'.tempBuffer x hx)⟩

theorem diffuseRow_same {i i' : Nat} (hne : i ≠ i') (numpix : Nat) (input : Mem) (s : State)
    (j : Nat) : Same cfg i s (reached (diffuseRow cfg i' numpix input s j)) := by
  unfold diffuseRow
  cases hteDiffOpen (ditherParms cfg i' j numpix input s) s.holdRandom with
  | none => exact Same.refl i s
  | some d =>
    refine ⟨?_, ?_, rfl, rfl, fun _ _ => rfl⟩
    · show s.errBuff i = Function.update s.errBuff i' d.err i
      rw [Function.update_of_ne hne]
    · show s.colorPlane i = Function.update s.colorPlane i' _ i
      rw [Function.update_of_ne hne]

theorem diffuseRows_same {i i' : Nat} (hne : i ≠ i') (numpix : Nat) (input : Mem) (s : State) :
    Same cfg i s (reached (diffuseRows cfg i' numpix input s)) :=
  reached_foldlM (Same cfg i s) (fun t j _ h => h.trans (diffuseRow_same hne numpix input t j))
    (Same.refl i s)

theorem diffusePlane_same {i i' : Nat} (hne : i ≠ i') (raster : Mem) (s : State) :
    Same cfg i s (reached (diffusePlane cfg raster s i')) := by
  unfold diffusePlane
  dsimp only
  split
  · next hwide =>
    split
    · next hroom =>
      have hexpand : Same cfg i s { s with
          tempBuffer := expand cfg i' (fun x => raster (cfg.offset i' + x)) s.tempBuffer } :=
        ⟨rfl, rfl, rfl, rfl, fun x hx =>
          (expand_behind hwide _ s.tempBuffer (Nat.le_trans hroom.2 hx)).symm⟩
      exact hexpand.trans (diffuseRows_same hne _ _ _)
    · exact Same.refl i s
  · exact diffuseRows_same hne _ _ s

def Config.Stuck (cfg : Config) (i : Nat) : Prop :=
  cfg.outputWidth i > cfg.adjustedInputWidth ∧ ¬ cfg.HasRoom i

theorem diffusePlane_stuck {i : Nat} (h : cfg.Stuck i) (raster : Mem) (s : State) :
    diffusePlane cfg raster s i = .error s := by
  unfold diffusePlane
  dsimp only
  rw [if_pos h.1, if_neg h.2]

theorem diffuseRows_draws {i : Nat} {input : Mem} {raster : Mem} {s₀ : State}
    (hseen : ∀ x < cfg.numpix i, input x = cfg.seen raster i x) (js : List Nat) (s : State)
    (hnext : s.nNextRaster = s₀.nNextRaster) :
    ∃ t, js.foldlM (diffuseRow cfg i (cfg.numpix i) input) s = .ok t ∧
      t.nNextRaster = s₀.nNextRaster ∧
      t.holdRandom = nextRandom^[js.length *
        rowDraws (ditherParms cfg i 0 (cfg.numpix i) (cfg.seen raster i) s₀)] s.holdRandom := by
  induction js generalizing s with
  | nil => exact ⟨s, rfl, hnext, by rw [List.length_nil, Nat.zero_mul]; rfl⟩
  | cons j js ih =>
    have hdvd := cfg.numpix_dvd i
    have hloop : 8 ∣ numLoop (ditherParms cfg i j (cfg.numpix i) input s) := by
      rw [numLoop_ditherParms]
      lia
    obtain ⟨d, hd, hrandom⟩ := hteDiffOpen_holdRandom
      (ditherParms cfg i j (cfg.numpix i) input s) s.holdRandom hloop
    have hdraws : rowDraws (ditherParms cfg i j (cfg.numpix i) input s)
        = rowDraws (ditherParms cfg i 0 (cfg.numpix i) (cfg.seen raster i) s₀) := by
      refine rowDraws_congr rfl ?_ fun x hx => hseen x ?_
      · show (if s.nNextRaster % 2 = 1 then (0 : Int) else 1)
          = if s₀.nNextRaster % 2 = 1 then 0 else 1
        rw [hnext]
      · rw [numLoop_ditherParms] at hx
        exact Nat.lt_of_lt_of_le hx (Nat.mod_le _ _)
    obtain ⟨t, ht, htnext, htrandom⟩ := ih (store cfg i j d s) hnext
    refine ⟨t, ?_, htnext, ?_⟩
    · rw [List.foldlM_cons, diffuseRow, hd]
      exact ht
    · rw [htrandom]
      show nextRandom^[_] d.holdRandom = _
      rw [hrandom, hdraws, ← Function.iterate_add_apply, List.length_cons, Nat.succ_mul]

/-- **What a plane draws** is decided by what it sees. -/
theorem diffusePlane_draws {i : Nat} (h : ¬ cfg.Stuck i) (raster : Mem) {s s₀ : State}
    (hnext : s.nNextRaster = s₀.nNextRaster) :
    ∃ t, diffusePlane cfg raster s i = .ok t ∧ t.nNextRaster = s₀.nNextRaster ∧
      t.holdRandom = nextRandom^[planeDraws cfg s₀ raster i] s.holdRandom := by
  have hlength : (List.range (cfg.numRows i)).length = cfg.numRows i := List.length_range
  unfold diffusePlane planeDraws
  dsimp only
  by_cases hwide : cfg.outputWidth i > cfg.adjustedInputWidth
  · have hroom : cfg.HasRoom i := by
      by_contra hnot
      exact h ⟨hwide, hnot⟩
    have hnumpix : cfg.numpix i = cfg.outputWidth i := if_pos hwide
    rw [if_pos hwide, if_pos hroom, ← hnumpix, ← hlength]
    exact diffuseRows_draws (fun x hx => expand_eq_seen hwide raster s.tempBuffer
      (hnumpix ▸ hx)) _ _ hnext
  · have hnumpix : cfg.numpix i = cfg.adjustedInputWidth := if_neg hwide
    rw [if_neg hwide, ← hnumpix, ← hlength]
    exact diffuseRows_draws (fun x _ => (if_neg hwide).symm) _ _ hnext

/-! ## Two rasters -/

theorem diffuseRow_congr {i : Nat} {input₁ input₂ : Mem} {s t : State} (hsame : Same cfg i s t)
    (hrandom : s.holdRandom = t.holdRandom) (hagree : ∀ x < cfg.numpix i, input₁ x = input₂ x)
    (j : Nat) : ∃ s' t', diffuseRow cfg i (cfg.numpix i) input₁ s j = .ok s' ∧
      diffuseRow cfg i (cfg.numpix i) input₂ t j = .ok t' ∧ Same cfg i s' t' ∧
      s'.holdRandom = t'.holdRandom := by
  have hdvd := cfg.numpix_dvd i
  have hloop : 8 ∣ numLoop (ditherParms cfg i j (cfg.numpix i) input₁ s) := by
    rw [numLoop_ditherParms]
    lia
  have hparms : ditherParms cfg i j (cfg.numpix i) input₂ t
      = { ditherParms cfg i j (cfg.numpix i) input₁ s with fInput := input₂ } := by
    unfold ditherParms
    rw [hsame.errBuff, hsame.colorPlane, hsame.nNextRaster]
  have heq := hteDiffOpen_congr (ditherParms cfg i j (cfg.numpix i) input₁ s) s.holdRandom hloop
    (fun x hx => hagree x (Nat.lt_of_lt_of_le hx (Nat.mod_le _ _)))
  rw [← hparms, hrandom] at heq
  obtain ⟨d, hd, -⟩ := hteDiffOpen_holdRandom
    (ditherParms cfg i j (cfg.numpix i) input₁ s) t.holdRandom hloop
  refine ⟨store cfg i j d s, store cfg i j d t, ?_, ?_, ?_, rfl⟩
  · rw [diffuseRow, hrandom, hd]
  · rw [diffuseRow, ← heq, hd]
  · refine ⟨?_, ?_, hsame.nNextRaster, hsame.originalKData, hsame.tempBuffer⟩
    · show Function.update s.errBuff i d.err i = Function.update t.errBuff i d.err i
      rw [Function.update_self, Function.update_self]
    · show Function.update s.colorPlane i _ i = Function.update t.colorPlane i _ i
      rw [Function.update_self, Function.update_self, hsame.colorPlane]

theorem diffuseRows_congr {i : Nat} {input₁ input₂ : Mem} {s t : State} (hsame : Same cfg i s t)
    (hrandom : s.holdRandom = t.holdRandom) (hagree : ∀ x < cfg.numpix i, input₁ x = input₂ x) :
    Same cfg i (reached (diffuseRows cfg i (cfg.numpix i) input₁ s))
      (reached (diffuseRows cfg i (cfg.numpix i) input₂ t)) := by
  unfold diffuseRows
  generalize List.range (cfg.numRows i) = js
  induction js generalizing s t with
  | nil => exact hsame
  | cons j js ih =>
    obtain ⟨s', t', hs, ht, hsame', hrandom'⟩ := diffuseRow_congr hsame hrandom hagree j
    rw [List.foldlM_cons, List.foldlM_cons, hs, ht]
    exact ih hsame' hrandom'

theorem diffusePlane_congr {i : Nat} {raster₁ raster₂ : Mem} {s t : State}
    (hsame : Same cfg i s t) (hrandom : s.holdRandom = t.holdRandom)
    (hagree : ∀ x < cfg.numpix i, cfg.seen raster₁ i x = cfg.seen raster₂ i x) :
    Same cfg i (reached (diffusePlane cfg raster₁ s i))
      (reached (diffusePlane cfg raster₂ t i)) := by
  unfold diffusePlane
  dsimp only
  by_cases hwide : cfg.outputWidth i > cfg.adjustedInputWidth
  · have hnumpix : cfg.numpix i = cfg.outputWidth i := if_pos hwide
    rw [if_pos hwide, if_pos hwide]
    by_cases hroom : cfg.HasRoom i
    · rw [if_pos hroom, if_pos hroom, ← hnumpix]
      refine diffuseRows_congr (s := { s with tempBuffer := _ }) (t := { t with tempBuffer := _ })
        ⟨hsame.errBuff, hsame.colorPlane, hsame.nNextRaster, hsame.originalKData, ?_⟩ hrandom ?_
      · intro x hx
        have hx' := Nat.le_trans hroom.2 hx
        dsimp only
        rw [expand_behind hwide _ _ hx', expand_behind hwide _ _ hx', hsame.tempBuffer x hx]
      · intro x hx
        have hx' : x < cfg.outputWidth i := hnumpix ▸ hx
        rw [expand_eq_seen hwide raster₁ _ hx', expand_eq_seen hwide raster₂ _ hx', hagree x hx]
    · rw [if_neg hroom, if_neg hroom]
      exact hsame
  · have hnumpix : cfg.numpix i = cfg.adjustedInputWidth := if_neg hwide
    rw [if_neg hwide, if_neg hwide, ← hnumpix]
    refine diffuseRows_congr hsame hrandom fun x hx => ?_
    have hx' := hagree x hx
    rwa [Config.seen, Config.seen, if_neg hwide, if_neg hwide] at hx'

theorem planes_same {i : Nat} {l : List Nat} (hi : i ∉ l) (raster : Mem) (s : State) :
    Same cfg i s (reached (l.foldlM (diffusePlane cfg raster) s)) :=
  reached_foldlM (Same cfg i s) (fun t j hj h => h.trans (diffusePlane_same
    (fun hij : i = j => hi (hij ▸ hj)) raster t)) (Same.refl i s)

theorem planes_stuck {l : List Nat} (h : ∃ j ∈ l, cfg.Stuck j) (raster : Mem) (s : State) :
    ∃ t, l.foldlM (diffusePlane cfg raster) s = .error t := by
  induction l generalizing s with
  | nil =>
    obtain ⟨j, hj, -⟩ := h
    exact absurd hj List.not_mem_nil
  | cons j l ih =>
    obtain ⟨k, hk, hstuck⟩ := h
    rw [List.foldlM_cons]
    rcases List.mem_cons.mp hk with rfl | hk
    · exact ⟨s, by rw [diffusePlane_stuck hstuck]; rfl⟩
    · cases diffusePlane cfg raster s j with
      | error t => exact ⟨t, rfl⟩
      | ok t => exact ih ⟨k, hk, hstuck⟩ t

theorem planes_draws {l : List Nat} (h : ∀ j ∈ l, ¬ cfg.Stuck j) (raster : Mem) {s s₀ : State}
    (hnext : s.nNextRaster = s₀.nNextRaster) :
    ∃ t, l.foldlM (diffusePlane cfg raster) s = .ok t ∧
      t.holdRandom = nextRandom^[(l.map (planeDraws cfg s₀ raster)).sum] s.holdRandom := by
  induction l generalizing s with
  | nil => exact ⟨s, rfl, rfl⟩
  | cons j l ih =>
    obtain ⟨t, ht, htnext, htrandom⟩ := diffusePlane_draws (h j List.mem_cons_self) raster hnext
    obtain ⟨u, hu, hurandom⟩ := ih (fun k hk => h k (List.mem_cons_of_mem j hk)) htnext
    refine ⟨u, ?_, ?_⟩
    · rw [List.foldlM_cons, ht]
      exact hu
    · rw [hurandom, htrandom, ← Function.iterate_add_apply, List.map_cons, List.sum_cons,
        Nat.add_comm]

theorem planes_congr {i : Nat} {raster₁ raster₂ : Mem} {s t s₀ : State} {pre post : List Nat}
    (hpre : i ∉ pre) (hpost : i ∉ post) (hsame : Same cfg i s t)
    (hrandom : s.holdRandom = t.holdRandom) (hnext : s.nNextRaster = s₀.nNextRaster)
    (hagree : ∀ x < cfg.numpix i, cfg.seen raster₁ i x = cfg.seen raster₂ i x)
    (hdraws : (pre.map (planeDraws cfg s₀ raster₁)).sum
      = (pre.map (planeDraws cfg s₀ raster₂)).sum) :
    Same cfg i (reached ((pre ++ i :: post).foldlM (diffusePlane cfg raster₁) s))
      (reached ((pre ++ i :: post).foldlM (diffusePlane cfg raster₂) t)) := by
  have hsame₁ : Same cfg i s (reached (pre.foldlM (diffusePlane cfg raster₁) s)) :=
    planes_same hpre raster₁ s
  have hsame₂ : Same cfg i t (reached (pre.foldlM (diffusePlane cfg raster₂) t)) :=
    planes_same hpre raster₂ t
  -- what follows plane `i` leaves it alone
  have hrest : ∀ raster u, Same cfg i (reached (diffusePlane cfg raster u i))
      (reached ((i :: post).foldlM (diffusePlane cfg raster) u)) := by
    intro raster u
    rw [List.foldlM_cons]
    cases diffusePlane cfg raster u i with
    | error v => exact Same.refl i v
    | ok v => exact planes_same hpost raster v
  rw [List.foldlM_append, List.foldlM_append]
  by_cases hstuck : ∃ j ∈ pre, cfg.Stuck j
  · obtain ⟨t₁, ht₁⟩ := planes_stuck hstuck raster₁ s
    obtain ⟨t₂, ht₂⟩ := planes_stuck hstuck raster₂ t
    rw [ht₁] at hsame₁ ⊢
    rw [ht₂] at hsame₂ ⊢
    exact hsame₁.symm.trans (hsame.trans hsame₂)
  · have hnone : ∀ j ∈ pre, ¬ cfg.Stuck j := fun j hj hs => hstuck ⟨j, hj, hs⟩
    obtain ⟨t₁, ht₁, hrandom₁⟩ := planes_draws hnone raster₁ hnext
    obtain ⟨t₂, ht₂, hrandom₂⟩ := planes_draws hnone raster₂ (hsame.nNextRaster.symm.trans hnext)
    rw [ht₁] at hsame₁ ⊢
    rw [ht₂] at hsame₂ ⊢
    have hown := diffusePlane_congr (hsame₁.symm.trans (hsame.trans hsame₂))
      (by rw [reached_ok, reached_ok, hrandom₁, hrandom₂, hdraws, hrandom]) hagree
    exact (hrest raster₁ t₁).symm.trans (hown.trans (hrest raster₂ t₂))

theorem processBlack_congr {i : Nat} {s t : State} (hsame : Same cfg i s t)
    {black₁ black₂ : Option Mem} {size₁ size₂ : Nat}
    (hblack : i = K → black₁ = black₂ ∧ size₁ = size₂) :
    (processBlack cfg black₁ size₁ s).errBuff i = (processBlack cfg black₂ size₂ t).errBuff i ∧
      (processBlack cfg black₁ size₁ s).colorPlane i
        = (processBlack cfg black₂ size₂ t).colorPlane i := by
  -- the errors are those before it, and so are the dots of another ink
  have herr : ∀ black size (u : State), (processBlack cfg black size u).errBuff = u.errBuff := by
    intro black size u
    cases black with
    | none => rfl
    | some data => exact (packBlack_frame cfg data size u).1
  have hother : i ≠ K → ∀ black size (u : State),
      (processBlack cfg black size u).colorPlane i = u.colorPlane i := by
    intro hne black size u
    cases black with
    | none => rfl
    | some data =>
      rw [← (packBlack_frame cfg data size u).2.1]
      funext j k
      exact if_neg fun h => hne h.1
  refine ⟨by rw [herr, herr, hsame.errBuff], ?_⟩
  by_cases hK : i = K
  swap
  · rw [hother hK, hother hK, hsame.colorPlane]
  obtain ⟨rfl, rfl⟩ := hblack hK
  cases black₁ with
  | none => exact hsame.colorPlane
  | some data =>
    have hcleared : blit (memset s.tempBuffer 0 (cfg.outputWidth K)) 0 data size₁
        = blit (memset t.tempBuffer 0 (cfg.outputWidth K)) 0 data size₁ := by
      have hmemset : memset s.tempBuffer 0 (cfg.outputWidth K)
          = memset t.tempBuffer 0 (cfg.outputWidth K) := by
        funext x
        by_cases hx : x < cfg.outputWidth K
        · have hcell := fun m : Mem => blit_add m 0 (fun _ => (0 : UInt8)) hx
          rw [Nat.zero_add] at hcell
          rw [memset, memset, hcell, hcell]
        · rw [memset, memset, blit_of_not_mem (Or.inr (by omega)),
            blit_of_not_mem (Or.inr (by omega)), hsame.tempBuffer x (Nat.not_lt.mp hx)]
      rw [hmemset]
    have hpacked : (packBlack cfg data size₁ s).1 = (packBlack cfg data size₁ t).1 ∧
        (packBlack cfg data size₁ s).2.originalKData
          = (packBlack cfg data size₁ t).2.originalKData := by
      unfold packBlack expandBlack
      rw [hcleared, hsame.originalKData]
      split
      · exact ⟨rfl, rfl⟩
      · exact ⟨rfl, rfl⟩
    have hplanes : (packBlack cfg data size₁ s).2.colorPlane i
        = (packBlack cfg data size₁ t).2.colorPlane i := by
      rw [(packBlack_frame cfg data size₁ s).2.1, (packBlack_frame cfg data size₁ t).2.1,
        hsame.colorPlane]
    unfold processBlack mergeBlack
    dsimp only
    rw [hpacked.1, hpacked.2, hplanes]

def opened (cfg : Config) (s : State) (black : Option Mem) : State :=
  nextRaster (clearPlanes cfg { s with started := true, blackData := black })

theorem process_color (cfg : Config) (s : State) {input : RasterData} {data : Mem}
    (h : input.rasterdata .color = some data) : process cfg s (some input) = (do
      let t ← cfg.planes.foldlM (diffusePlane cfg data) (opened cfg s (input.rasterdata .black))
      .ok (ready cfg
        (processBlack cfg (input.rasterdata .black) (input.rastersize .black) t), true)) := by
  have hthere : ¬ (input.rasterdata .color = none ∧ input.rasterdata .black = none) := by
    intro hnull
    rw [h] at hnull
    cases hnull.1
  unfold process
  dsimp only
  rw [if_neg hthere, h]
  rfl

/-- **What an ink plane depends on**: two rasters that agree on the pixels of plane
`i`, and where they are not expanded on the padding behind them, give it the same dots
and leave it the same errors, if the planes in front of it draw equally many random
numbers. -/
theorem plane_independent (cfg : Config) (s : State) (input₁ input₂ : RasterData)
    {data₁ data₂ : Mem} (h₁ : input₁.rasterdata .color = some data₁)
    (h₂ : input₂.rasterdata .color = some data₂) {i : Nat} (hi : i ∈ cfg.planes)
    (hpixels : ∀ x < cfg.inputWidth, data₁ (cfg.offset i + x) = data₂ (cfg.offset i + x))
    (hpadding : cfg.outputWidth i ≤ cfg.adjustedInputWidth → ∀ x, cfg.inputWidth ≤ x →
      x < cfg.adjustedInputWidth → data₁ (cfg.offset i + x) = data₂ (cfg.offset i + x))
    (hdraws : drawsBefore cfg s data₁ i = drawsBefore cfg s data₂ i)
    (hblack : i = K → input₁.rasterdata .black = input₂.rasterdata .black ∧
      input₁.rastersize .black = input₂.rastersize .black) :
    let t₁ := reached ((process cfg s (some input₁)).map Prod.fst)
    let t₂ := reached ((process cfg s (some input₂)).map Prod.fst)
    t₁.colorPlane i = t₂.colorPlane i ∧ t₁.errBuff i = t₂.errBuff i := by
  dsimp only
  -- what the plane sees is the same
  have hagree : ∀ x < cfg.numpix i, cfg.seen data₁ i x = cfg.seen data₂ i x := by
    intro x hx
    unfold Config.seen
    by_cases hwide : cfg.outputWidth i > cfg.adjustedInputWidth
    · rw [if_pos hwide, if_pos hwide]
      by_cases hpixel : x < cfg.inputWidth * cfg.factor i
      · rw [if_pos hpixel, if_pos hpixel]
        exact hpixels _ (Nat.div_lt_of_lt_mul (by rwa [Nat.mul_comm]))
      · rw [if_neg hpixel, if_neg hpixel]
    · have hx' : x < cfg.adjustedInputWidth := by
        rwa [Config.numpix, if_neg hwide] at hx
      rw [if_neg hwide, if_neg hwide]
      rcases Nat.lt_or_ge x cfg.inputWidth with hreal | hpad
      · exact hpixels x hreal
      · exact hpadding (Nat.not_lt.mp hwide) x hpad hx'
  -- the planes in order, with plane `i` somewhere
  obtain ⟨pre, post, hsplit, hpre, hpost⟩ : ∃ pre post, cfg.planes = pre ++ i :: post ∧
      i ∉ pre ∧ i ∉ post := by
    obtain ⟨pre, post, hsplit⟩ := List.append_of_mem hi
    have hnodup : cfg.planes.Nodup := List.nodup_range'
    rw [hsplit, List.nodup_append] at hnodup
    obtain ⟨-, hcons, hdisjoint⟩ := hnodup
    exact ⟨pre, post, hsplit, fun hmem => hdisjoint i hmem i List.mem_cons_self rfl,
      (List.nodup_cons.mp hcons).1⟩
  have htake : cfg.planes.takeWhile (fun j => j != i) = pre := by
    rw [hsplit, List.takeWhile_append_of_pos, List.takeWhile_cons_of_neg, List.append_nil]
    · simp
    · intro j hj
      simp only [bne_iff_ne]
      exact fun hji => hpre (hji ▸ hj)
  rw [drawsBefore, drawsBefore, htake] at hdraws
  have hnext : ∀ black, (opened cfg s black).nNextRaster = (nextRaster s).nNextRaster :=
    fun _ => rfl
  have hsame : Same cfg i
      (reached (cfg.planes.foldlM (diffusePlane cfg data₁)
        (opened cfg s (input₁.rasterdata .black))))
      (reached (cfg.planes.foldlM (diffusePlane cfg data₂)
        (opened cfg s (input₂.rasterdata .black)))) := by
    rw [hsplit]
    exact planes_congr hpre hpost ⟨rfl, rfl, rfl, rfl, fun _ _ => rfl⟩ rfl (hnext _) hagree hdraws
  rw [process_color cfg s h₁, process_color cfg s h₂]
  by_cases hstuck : ∃ j ∈ cfg.planes, cfg.Stuck j
  · obtain ⟨t₁, ht₁⟩ := planes_stuck hstuck data₁ (opened cfg s (input₁.rasterdata .black))
    obtain ⟨t₂, ht₂⟩ := planes_stuck hstuck data₂ (opened cfg s (input₂.rasterdata .black))
    rw [ht₁, ht₂] at hsame ⊢
    exact ⟨hsame.colorPlane, hsame.errBuff⟩
  · have hnone : ∀ j ∈ cfg.planes, ¬ cfg.Stuck j := fun j hj hs => hstuck ⟨j, hj, hs⟩
    obtain ⟨t₁, ht₁, -⟩ := planes_draws hnone data₁ (hnext (input₁.rasterdata .black))
    obtain ⟨t₂, ht₂, -⟩ := planes_draws hnone data₂ (hnext (input₂.rasterdata .black))
    rw [ht₁, ht₂] at hsame ⊢
    obtain ⟨herr, hcolor⟩ := processBlack_congr hsame hblack
    exact ⟨hcolor, herr⟩

/-- Eight cyan and eight magenta pixels, and `y` in every yellow one. -/
def withYellow (y : UInt8) : Mem := fun x => if x < 16 then 100 else y

/-- Yellow that differs leaves magenta alone. -/
theorem magenta_independent_of_yellow :
    (reached ((process (.plain 3 8) (new (.plain 3 8) .zero)
        (some (.only .color (withYellow 0) 24))).map Prod.fst)).errBuff 2
      = (reached ((process (.plain 3 8) (new (.plain 3 8) .zero)
        (some (.only .color (withYellow 200) 24))).map Prod.fst)).errBuff 2 := by
  have hwidth : ∀ x < 8, withYellow 0 (8 + x) = withYellow 200 (8 + x) := by decide
  have hsame := plane_independent (.plain 3 8) (new (.plain 3 8) .zero)
    (.only .color (withYellow 0) 24) (.only .color (withYellow 200) 24)
    (RasterData.only_data _ _ _) (RasterData.only_data _ _ _) (i := 2) (by decide) hwidth
    (fun _ x hlow hhigh => absurd hhigh (Nat.not_lt.mpr hlow)) (by decide +kernel)
    (fun h => absurd h (by decide))
  exact hsame.2

/-- The dots and the errors of plane `i` depend on its own pixels only. -/
def DependsOnItself (cfg : Config) (i : Nat) : Prop :=
  ∀ (s : State) (data₁ data₂ : Mem),
    (∀ x < cfg.inputWidth, data₁ (cfg.offset i + x) = data₂ (cfg.offset i + x)) →
    let t₁ := reached ((process cfg s (some (.only .color data₁ 0))).map Prod.fst)
    let t₂ := reached ((process cfg s (some (.only .color data₂ 0))).map Prod.fst)
    t₁.colorPlane i = t₂.colorPlane i ∧ t₁.errBuff i = t₂.errBuff i

/-- Cyan of one pixel is diffused with magenta behind it; and magenta of 24 pixels
draws other thresholds if cyan is white. -/
theorem not_dependsOnItself :
    ¬ DependsOnItself (.plain 3 1) C ∧ ¬ DependsOnItself (.plain 3 24) 2 := by
  constructor
  · intro h
    have herr := congrFun (h (new (.plain 3 1) .zero) (fun x => if x = 0 then 100 else 0)
      (fun x => if x = 0 then 100 else 90) (by decide)).2 1
    revert herr
    decide +kernel
  · intro h
    have herr := congrFun (h (new (.plain 3 24) .zero) (fun x => if x < 24 then 0 else 100)
      (fun x => if x < 24 then 50 else 100) (by decide)).2 1
    revert herr
    decide +kernel

end Hplip.Hpcups.Halftoner
