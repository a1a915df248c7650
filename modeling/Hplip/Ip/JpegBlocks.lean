import Hplip.Ip.JpegTables

/-!
# Coding the blocks of a JPEG scan (xjpg_enc.c, xjpg_dec.c)

A block of 64 values is quantised in zig-zag order. The DC value is written as a difference
to the one before it of its component, an AC value with the run of zeroes before it; the end
of the block is written when zeroes are left.
-/

namespace Hplip.Ip

open Bits PrefixCode

namespace JpegEnc

/-! ## The encoder -/

def zigzagIndexTable : List Nat :=
  [0, 1, 8, 16, 9, 2, 3, 10,
   17, 24, 32, 25, 18, 11, 4, 5,
   12, 19, 26, 33, 40, 48, 41, 34,
   27, 20, 13, 6, 7, 14, 21, 28,
   35, 42, 49, 56, 57, 50, 43, 36,
   29, 22, 15, 23, 30, 37, 44, 51,
   58, 59, 52, 45, 38, 31, 39, 46,
   53, 60, 61, 54, 47, 55, 62, 63]

/-- `enc_block_zz`: a value of the block by its zig-zag position. -/
def encBlockZz (encBlock : List Int) (i : Nat) : Int := encBlock.getD (zigzagIndexTable.getD i 0) 0

def codesizeArray : List Nat :=
  [0] ++ List.replicate 1 1 ++ List.replicate 2 2 ++ List.replicate 4 3 ++ List.replicate 8 4
    ++ List.replicate 16 5 ++ List.replicate 32 6 ++ List.replicate 64 7 ++ List.replicate 128 8

def codesize (absdata : Nat) : Nat :=
  if absdata < 256 then codesizeArray.getD absdata 0
  else codesizeArray.getD (absdata >>> 8) 0 + 8

def round (x : Int) : Int := (x + 2 ^ 14) / 2 ^ 15

/-- The threshold that `scale_for_wino` gives for a quantisation factor. -/
def scaleThresh (q : Nat) : Nat := if q = 0 then 32767 else 2 ^ 14 / q

/-- `wino_lum_quant` or `wino_chrom_quant`. None of the factors is 0: the least of the norms
over the greatest byte is more than 8 in 15 bits of fraction. -/
structure WinoTable where
  quant : List Nat
  size : quant.length = 64
  pos : ∀ q ∈ quant, 0 < q

/-- `wino_lum_quant_thres` or `wino_chrom_quant_thres`. -/
def WinoTable.thresh (t : WinoTable) : List Nat := t.quant.map scaleThresh

def writeHuffCode (w : Writer) (huffman : List HuffElem) (val : Nat) : Writer :=
  let elem := huffman.getD val ⟨0, 0⟩
  writeBitsHizero w elem.code elem.size

def zeroRuns (acHuff : List HuffElem) (w : Writer) (run : Nat) : Writer × Nat :=
  if 16 ≤ run then zeroRuns acHuff (writeHuffCode w acHuff 0xf0) (run - 16) else (w, run)
termination_by run

/-- The AC values of `encode_block`, each with its factor and threshold, and the end of the
block. -/
def acLoop (acHuff : List HuffElem) (fDenali : Bool) :
    Writer → Nat → List (Int × Nat × Nat) → Writer
  | w, run, [] => if 0 < run ∨ fDenali then writeHuffCode w acHuff 0 else w
  | w, run, (data, quant, thresh) :: terms =>
    if data.natAbs ≤ thresh then acLoop acHuff fDenali w (run + 1) terms
    else
      let (w, run) := zeroRuns acHuff w run
      let absdata := (round (data.natAbs * quant % 2 ^ 32 : Nat)).toNat
      let siz := codesize absdata
      let w := writeHuffCode w acHuff (run * 16 + siz)
      let w := writeBits w (if data < 0 then -absdata - 1 else absdata) siz
      acLoop acHuff fDenali w 0 terms

def encodeBlock (w : Writer) (comp : Nat) (fDenali : Bool) (dcHuff acHuff : List HuffElem)
    (quant thresh : List Nat) (encBlock : List Int) : Writer :=
  let data := round (encBlockZz encBlock 0 * quant.getD 0 0)
  let diff := data - w.1.priorDC.getD comp 0
  let siz := codesize diff.natAbs
  let w : Writer := ({ w.1 with priorDC := w.1.priorDC.set comp data }, w.2)
  let w := writeHuffCode w dcHuff siz
  let w := writeBits w (if diff < 0 then diff - 1 else diff) siz
  acLoop acHuff fDenali w 0 ((List.range' 1 63).map fun i =>
    (encBlockZz encBlock i, quant.getD i 0, thresh.getD i 0))

/-- The call in `encode_MCU`: the tables of the component. -/
def encodeComp (fDenali : Bool) (lum chrom : WinoTable) (w : Writer) (b : Nat × List Int) :
    Writer :=
  if b.1 = 0 then
    encodeBlock w b.1 fDenali lumDCTable (if fDenali then lumACTableDenali else lumACTable)
      lum.quant lum.thresh b.2
  else encodeBlock w b.1 fDenali chromDCTable chromACTable chrom.quant chrom.thresh b.2

/-- The bytes of a scan: its blocks with their components, the flush and the marker. -/
def scan (fDenali : Bool) (lum chrom : WinoTable) (blocks : List (Nat × List Int)) : List UInt8 :=
  let w := blocks.foldl (encodeComp fDenali lum chrom) (Coder.init, [])
  w.2 ++ (writeBitsFlush w.1).2 ++ emWriteEOI

/-! ## The quantised coefficients -/

def acCoef (data : Int) (q : Nat) : Int :=
  if data.natAbs ≤ scaleThresh q then 0
  else data.sign * ((data.natAbs * q + 2 ^ 14) / 2 ^ 15 : Nat)

def coef (t : WinoTable) (encBlock : List Int) (i : Nat) : Int :=
  if i = 0 then round (encBlockZz encBlock 0 * t.quant.getD 0 0)
  else acCoef (encBlockZz encBlock i) (t.quant.getD i 0)

def compTable (lum chrom : WinoTable) (comp : Nat) : WinoTable := if comp = 0 then lum else chrom

def Baseline (lum chrom : WinoTable) : List Int → List (Nat × List Int) → Prop
  | _, [] => True
  | priorDC, (comp, b) :: blocks =>
    let t := compTable lum chrom comp
    (coef t b 0 - priorDC.getD comp 0).natAbs < 2 ^ 11 ∧
      (∀ i < 64, i ≠ 0 → (coef t b i).natAbs < 2 ^ 10) ∧
      Baseline lum chrom (priorDC.set comp (coef t b 0)) blocks

/-! ## Sizes and terms -/

theorem codesizeArray_spec (a : Nat) (ha : a < 256) :
    a < 2 ^ codesizeArray.getD a 0 ∧ (a ≠ 0 → 2 ^ (codesizeArray.getD a 0 - 1) ≤ a) ∧
      (a ≠ 0 → 1 ≤ codesizeArray.getD a 0) := by
  have hall : codesizeArray.zipIdx.all fun p => p.2 < 2 ^ p.1 ∧
      (p.2 ≠ 0 → 2 ^ (p.1 - 1) ≤ p.2) ∧ (p.2 ≠ 0 → 1 ≤ p.1) := by
    decide +kernel
  have hlength : a < codesizeArray.length := by
    rw [show codesizeArray.length = 256 by decide +kernel]
    exact ha
  have hmem : (codesizeArray.getD a 0, a) ∈ codesizeArray.zipIdx := by
    rw [List.mem_zipIdx_iff_getElem?, List.getD_eq_getElem?_getD, List.getElem?_eq_getElem hlength]
    rfl
  exact of_decide_eq_true (List.all_eq_true.mp hall _ hmem)

theorem codesize_zero : codesize 0 = 0 := by decide

theorem codesize_spec {a : Nat} (hpos : a ≠ 0) (ha : a < 2 ^ 16) :
    1 ≤ codesize a ∧ a < 2 ^ codesize a ∧ 2 ^ (codesize a - 1) ≤ a := by
  rw [codesize]
  by_cases hsmall : a < 256
  · rw [if_pos hsmall]
    obtain ⟨h₁, h₂, h₃⟩ := codesizeArray_spec a hsmall
    exact ⟨h₃ hpos, h₁, h₂ hpos⟩
  · rw [if_neg hsmall, Nat.shiftRight_eq_div_pow]
    obtain ⟨h₁, h₂, h₃⟩ := codesizeArray_spec (a / 2 ^ 8) (by lia)
    have hhigh := h₂ (by lia)
    have hone := h₃ (by lia)
    generalize codesizeArray.getD (a / 2 ^ 8) 0 = s at *
    refine ⟨by lia, ?_, ?_⟩
    · rw [Nat.pow_add]
      lia
    · rw [show s + 8 - 1 = s - 1 + 8 by lia, Nat.pow_add]
      lia

theorem codesize_le {a k : Nat} (ha : a < 2 ^ k) (hk : k ≤ 16) : codesize a ≤ k := by
  by_cases hzero : a = 0
  · rw [hzero, codesize_zero]
    exact Nat.zero_le k
  · obtain ⟨h₁, -, h₃⟩ := codesize_spec hzero
      (Nat.lt_of_lt_of_le ha (Nat.pow_le_pow_right (by decide) hk))
    have hlt := (Nat.pow_lt_pow_iff_right (by decide)).mp (Nat.lt_of_le_of_lt h₃ ha)
    lia

def termBits (c : Int) : List Bool :=
  natBits (codesize c.natAbs) ((if c < 0 then c - 1 else c) % 2 ^ codesize c.natAbs).toNat

theorem acCoef_of_le {data : Int} {q : Nat} (h : data.natAbs ≤ scaleThresh q) :
    acCoef data q = 0 :=
  if_pos h

/-- Over the threshold the product is rounded to at least 1, and what is written is the
coefficient. -/
theorem acCoef_spec {data : Int} {q : Nat} (hq : 0 < q) (h : ¬ data.natAbs ≤ scaleThresh q)
    (hfits : (acCoef data q).natAbs < 2 ^ 10) :
    acCoef data q ≠ 0 ∧
      (round (data.natAbs * q % 2 ^ 32 : Nat)).toNat = (acCoef data q).natAbs ∧
      (data < 0 ↔ acCoef data q < 0) := by
  have hover : 2 ^ 14 < data.natAbs * q := by
    rw [scaleThresh, if_neg (Nat.ne_of_gt hq), not_le] at h
    exact (Nat.div_lt_iff_lt_mul hq).mp h
  have hne : data ≠ 0 := by
    rintro rfl
    simp at hover
  rw [acCoef, if_neg h] at hfits ⊢
  generalize data.natAbs * q = x at *
  have hcoef : 1 ≤ (x + 2 ^ 14) / 2 ^ 15 := by lia
  have habs : (data.sign * ((x + 2 ^ 14) / 2 ^ 15 : Nat)).natAbs = (x + 2 ^ 14) / 2 ^ 15 := by
    rw [Int.natAbs_mul, Int.natAbs_sign_of_ne_zero hne, Nat.one_mul, Int.natAbs_natCast]
  rw [habs] at hfits ⊢
  rw [Nat.mod_eq_of_lt (show x < 2 ^ 32 by lia)]
  generalize hc : (x + 2 ^ 14) / 2 ^ 15 = c at *
  refine ⟨?_, ?_, ?_⟩
  · exact Int.mul_ne_zero (Int.sign_eq_zero_iff_zero.not.mpr hne) (by lia)
  · rw [round]
    lia
  · rcases lt_or_gt_of_ne hne with hneg | hpos
    · rw [Int.sign_eq_neg_one_of_neg hneg]
      lia
    · rw [Int.sign_eq_one_of_pos hpos]
      lia

/-! ## What the encoder writes -/

open JpegDec

section Encoder

variable {w : Writer} {bits : List Bool} {dcHuff acHuff huffman : List HuffElem}
  {counts huffval counts' huffval' : List UInt8} {used : List Nat} {fDenali : Bool}

def zrlBits (acHuff : List HuffElem) : Nat → List Bool
  | 0 => []
  | k + 1 => huffBits acHuff 0xf0 ++ zrlBits acHuff k

/-- The bits of AC values behind `run` zeroes. -/
def acBits (acHuff : List HuffElem) (fDenali : Bool) : Nat → List Int → List Bool
  | run, [] => if 0 < run ∨ fDenali then huffBits acHuff 0 else []
  | run, c :: cs =>
    if c = 0 then acBits acHuff fDenali (run + 1) cs
    else zrlBits acHuff (run / 16) ++ (huffBits acHuff (run % 16 * 16 + codesize c.natAbs)
      ++ (termBits c ++ acBits acHuff fDenali 0 cs))

def blockBits (dcHuff acHuff : List HuffElem) (fDenali : Bool) (diff : Int) (cs : List Int) :
    List Bool :=
  huffBits dcHuff (codesize diff.natAbs) ++ (termBits diff ++ acBits acHuff fDenali 0 cs)

theorem mem_acSymbols {run siz : Nat} (hrun : run < 16) (hpos : 1 ≤ siz) (hsiz : siz ≤ 10) :
    run * 16 + siz ∈ acSymbols := by
  refine List.mem_cons_of_mem _ (List.mem_cons_of_mem _ (List.mem_flatMap.mpr
    ⟨run, List.mem_range.mpr hrun, List.mem_map.mpr ⟨siz - 1, ?_, ?_⟩⟩))
  · rw [List.mem_range]
    lia
  · rw [Nat.sub_add_cancel hpos]

theorem zero_mem_acSymbols : 0 ∈ acSymbols := List.mem_cons_self

theorem zrl_mem_acSymbols : 0xf0 ∈ acSymbols := List.mem_cons_of_mem _ List.mem_cons_self

theorem writeHuffCode_wrote {val : Nat} (h : w.Wrote bits)
    (hm : Matched huffman counts huffval used) (hv : val ∈ used) :
    (writeHuffCode w huffman val).Wrote (bits ++ huffBits huffman val) := by
  obtain ⟨hsize, hcode⟩ := hm.fits hv
  exact writeBitsHizero_wrote h (by omega) hcode

theorem writeTerm_wrote {c : Int} (h : w.Wrote bits) (hc : codesize c.natAbs ≤ 25) :
    (writeBits w (if c < 0 then c - 1 else c) (codesize c.natAbs)).Wrote (bits ++ termBits c) :=
  writeBits_wrote h hc

theorem zeroRuns_wrote (run : Nat) (h : w.Wrote bits)
    (hm : Matched acHuff counts huffval acSymbols) :
    (zeroRuns acHuff w run).1.Wrote (bits ++ zrlBits acHuff (run / 16)) ∧
      (zeroRuns acHuff w run).2 = run % 16 := by
  fun_induction zeroRuns acHuff w run generalizing bits with
  | case1 w run hmore ih =>
    obtain ⟨hwrote, hleft⟩ := ih (writeHuffCode_wrote h hm zrl_mem_acSymbols)
    rw [show run / 16 = (run - 16) / 16 + 1 by lia, zrlBits, ← List.append_assoc]
    exact ⟨hwrote, by lia⟩
  | case2 w run hmore =>
    rw [show run / 16 = 0 by lia, zrlBits, List.append_nil]
    exact ⟨h, by lia⟩

theorem acLoop_wrote {run : Nat} {terms : List (Int × Nat × Nat)} (h : w.Wrote bits)
    (hm : Matched acHuff counts huffval acSymbols)
    (hterms : ∀ x ∈ terms, x.2.2 = scaleThresh x.2.1 ∧ 0 < x.2.1 ∧
      (acCoef x.1 x.2.1).natAbs < 2 ^ 10) :
    (acLoop acHuff fDenali w run terms).Wrote
      (bits ++ acBits acHuff fDenali run (terms.map fun x => acCoef x.1 x.2.1)) := by
  induction terms generalizing w bits run with
  | nil =>
    rw [acLoop, List.map_nil, acBits]
    by_cases hend : 0 < run ∨ fDenali
    · rw [if_pos hend, if_pos hend]
      exact writeHuffCode_wrote h hm zero_mem_acSymbols
    · rw [if_neg hend, if_neg hend, List.append_nil]
      exact h
  | cons x terms ih =>
    obtain ⟨data, quant, thresh⟩ := x
    obtain ⟨hthresh, hpos, hfits⟩ := hterms _ List.mem_cons_self
    have hrest := fun y hy => hterms y (List.mem_cons_of_mem _ hy)
    dsimp only at hthresh hpos hfits
    subst hthresh
    rw [acLoop, List.map_cons, acBits]
    by_cases hzero : data.natAbs ≤ scaleThresh quant
    · rw [if_pos hzero, if_pos (acCoef_of_le hzero)]
      exact ih h hrest
    · obtain ⟨hne, habs, hsign⟩ := acCoef_spec hpos hzero hfits
      rw [if_neg hzero, if_neg hne]
      obtain ⟨hruns, hleft⟩ := zeroRuns_wrote run h hm
      generalize acCoef data quant = c at *
      dsimp only
      rw [habs, hleft]
      have hsize := codesize_spec (a := c.natAbs) (by lia) (by lia)
      have hten := codesize_le hfits (by decide)
      have hterm : (if data < 0 then -(c.natAbs : Int) - 1 else c.natAbs)
          = if c < 0 then c - 1 else c := by
        by_cases hneg : c < 0
        · rw [if_pos (hsign.mpr hneg), if_pos hneg]
          lia
        · rw [if_neg (hsign.not.mpr hneg), if_neg hneg]
          lia
      rw [hterm, ← List.append_assoc, ← List.append_assoc, ← List.append_assoc]
      refine ih (writeTerm_wrote (writeHuffCode_wrote hruns hm ?_) (by lia)) hrest
      exact mem_acSymbols (Nat.mod_lt _ (by decide)) hsize.1 hten

/-! ## The prior DC values -/

theorem putCachedLoop_priorDC (rounds : Nat) (w : Writer) :
    (putCachedLoop rounds w).1.priorDC = w.1.priorDC := by
  induction rounds generalizing w with
  | zero => rfl
  | succ rounds ih =>
    rw [putCachedLoop]
    by_cases hle : (putCached w).1.wrBitsAvail ≤ 24
    · rw [if_pos hle, ih]
      rfl
    · rw [if_neg hle]
      rfl

theorem writeBitsHizero_priorDC (w : Writer) (value nbits : Nat) :
    (writeBitsHizero w value nbits).1.priorDC = w.1.priorDC := by
  rw [writeBitsHizero]
  by_cases hfull : w.1.wrBitsAvail < nbits
  · simp only [if_pos hfull]
    exact putCachedLoop_priorDC 4 w
  · simp only [if_neg hfull]

@[simp] theorem writeHuffCode_priorDC (w : Writer) (huffman : List HuffElem) (val : Nat) :
    (writeHuffCode w huffman val).1.priorDC = w.1.priorDC :=
  writeBitsHizero_priorDC w _ _

@[simp] theorem writeBits_priorDC (w : Writer) (value : Int) (nbits : Nat) :
    (writeBits w value nbits).1.priorDC = w.1.priorDC :=
  writeBitsHizero_priorDC w _ _

@[simp] theorem zeroRuns_priorDC (acHuff : List HuffElem) (w : Writer) (run : Nat) :
    (zeroRuns acHuff w run).1.1.priorDC = w.1.priorDC := by
  fun_induction zeroRuns acHuff w run with
  | case1 w run hmore ih => rw [ih, writeHuffCode_priorDC]
  | case2 w run hmore => rfl

@[simp] theorem acLoop_priorDC (acHuff : List HuffElem) (fDenali : Bool) (w : Writer) (run : Nat)
    (terms : List (Int × Nat × Nat)) :
    (acLoop acHuff fDenali w run terms).1.priorDC = w.1.priorDC := by
  induction terms generalizing w run with
  | nil =>
    rw [acLoop]
    by_cases hend : 0 < run ∨ fDenali
    · rw [if_pos hend, writeHuffCode_priorDC]
    · rw [if_neg hend]
  | cons x terms ih =>
    obtain ⟨data, quant, thresh⟩ := x
    rw [acLoop]
    by_cases hzero : data.natAbs ≤ thresh
    · rw [if_pos hzero, ih]
    · rw [if_neg hzero, ih, writeBits_priorDC, writeHuffCode_priorDC, zeroRuns_priorDC]

/-! ## Blocks -/

def acCoefs (t : WinoTable) (encBlock : List Int) : List Int :=
  (List.range' 1 63).map (coef t encBlock)

theorem encodeBlock_wrote (fDenali : Bool) {t : WinoTable} {comp : Nat} {encBlock : List Int}
    (h : w.Wrote bits)
    (hdc : Matched dcHuff counts huffval dcSymbols)
    (hac : Matched acHuff counts' huffval' acSymbols)
    (hdiff : (coef t encBlock 0 - w.1.priorDC.getD comp 0).natAbs < 2 ^ 11)
    (hfits : ∀ i < 64, i ≠ 0 → (coef t encBlock i).natAbs < 2 ^ 10) :
    (encodeBlock w comp fDenali dcHuff acHuff t.quant t.thresh encBlock).Wrote
        (bits ++ blockBits dcHuff acHuff fDenali
          (coef t encBlock 0 - w.1.priorDC.getD comp 0) (acCoefs t encBlock)) ∧
      (encodeBlock w comp fDenali dcHuff acHuff t.quant t.thresh encBlock).1.priorDC
        = w.1.priorDC.set comp (coef t encBlock 0) := by
  have hdata : round (encBlockZz encBlock 0 * t.quant.getD 0 0) = coef t encBlock 0 := rfl
  rw [encodeBlock, hdata]
  generalize coef t encBlock 0 - w.1.priorDC.getD comp 0 = diff at *
  have hcoefs : ((List.range' 1 63).map fun i =>
      (encBlockZz encBlock i, t.quant.getD i 0, t.thresh.getD i 0)).map
        (fun x => acCoef x.1 x.2.1) = acCoefs t encBlock := by
    rw [List.map_map, acCoefs]
    refine List.map_congr_left fun i hi => ?_
    rw [List.mem_range'_1] at hi
    exact (if_neg (by omega)).symm
  have hterms : ∀ x ∈ (List.range' 1 63).map fun i =>
      (encBlockZz encBlock i, t.quant.getD i 0, t.thresh.getD i 0),
      x.2.2 = scaleThresh x.2.1 ∧ 0 < x.2.1 ∧ (acCoef x.1 x.2.1).natAbs < 2 ^ 10 := by
    intro x hx
    obtain ⟨i, hi, rfl⟩ := List.mem_map.mp hx
    rw [List.mem_range'_1] at hi
    have hlen : i < t.quant.length := by
      rw [t.size]
      omega
    have hcoef := hfits i (by omega) (by omega)
    rw [coef, if_neg (by omega)] at hcoef
    refine ⟨?_, ?_, hcoef⟩
    · show t.thresh.getD i 0 = scaleThresh (t.quant.getD i 0)
      rw [WinoTable.thresh, List.getD_eq_getElem _ _ (by rwa [List.length_map]),
        List.getD_eq_getElem _ _ hlen, List.getElem_map]
    · show 0 < t.quant.getD i 0
      rw [List.getD_eq_getElem _ _ hlen]
      exact t.pos _ (List.getElem_mem hlen)
  have hprior : Writer.Wrote
      ({ w.1 with priorDC := w.1.priorDC.set comp (coef t encBlock 0) }, w.2) bits :=
    ⟨⟨h.wf.avail, h.wf.low⟩, h.sent⟩
  have hsize := codesize_le hdiff (by decide)
  constructor
  · rw [blockBits, ← hcoefs, ← List.append_assoc, ← List.append_assoc]
    refine acLoop_wrote (writeTerm_wrote (writeHuffCode_wrote hprior hdc ?_) (by omega)) hac hterms
    exact List.mem_range.mpr (by omega)
  · simp only [acLoop_priorDC, writeBits_priorDC, writeHuffCode_priorDC]

end Encoder

end JpegEnc

end Hplip.Ip
