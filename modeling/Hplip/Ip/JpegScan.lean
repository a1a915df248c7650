import Hplip.Ip.JpegBlocks

/-!
# Decoding a JPEG scan (xjpg_dec.c)

`parse_block` reads the codes of a block back, puts the dequantised coefficients into their
places, and stops at a marker. Over the tables that `calc_table` makes from the counts and
values in the encoder's header it reads what the encoder wrote.
-/

namespace Hplip.Ip.JpegDec

open Bits PrefixCode JpegEnc

/-! ## The decoder -/

def zigzagIndexTbl : List Nat := zigzagIndexTable ++ List.replicate 16 0

def qnormToInput (x : Int) : Int := x / 2 ^ 11

def fixTerm (siz term : Nat) : Int :=
  if term.testBit (siz - 1) then term else (term : Int) - 2 ^ siz + 1

/-- `*block_pp = value`: the store at a zig-zag position. -/
def setZz (block : List Int) (p : Nat) (value : Int) : List Int :=
  block.set (zigzagIndexTbl.getD p 0) value

/-- The part of `JDEC_INST` that `parse_block` uses. -/
structure JdecInst where
  dcTbls : Nat → HuffTbl
  acTbls : Nat → HuffTbl
  quantTbls : Nat → List Int
  whichQuantTbl : Nat → Nat
  whichDcTbl : Nat → Nat
  whichAcTbl : Nat → Nat
  fDenali : Bool

/-- The AC loop of `parse_block`. Each round that goes on moves the position, so no more
rounds than positions are needed. -/
def parseAC (acTbl : HuffTbl) (dequant : List Int) (fDenali : Bool) :
    Nat → Nat → List Int → Reader → Except Stop (List Int × Reader)
  | 0, _, _, _ => .error .pastEnd
  | rounds + 1, p, block, r => do
    let next (p : Nat) (block : List Int) (r : Reader) : Except Stop (List Int × Reader) :=
      if 64 < p then .error .syntaxErr
      else if 64 = p ∧ fDenali = false then return (block, r)
      else parseAC acTbl dequant fDenali rounds p block r
    let (rlByte, r) ← decodeHuff acTbl acTblIndexLen r
    let run := rlByte / 16
    let siz := rlByte % 16
    if siz = 0 then
      if run = 15 then next (p + 16) block r
      else if run = 0 then return (block, r)
      else .error .syntaxErr
    else
      let (ac, r) ← readBitsLoad r siz
      let value := qnormToInput (dequant.getD (p + run) 0 * fixTerm siz ac)
      next (p + run + 1) (setZz block (p + run) value) (readBitsAdvance r siz)

/-- The DC difference of `parse_block`. -/
def parseDC (dcTbl : HuffTbl) (r : Reader) : Except Stop (Int × Reader) := do
  let (siz, r) ← decodeHuff dcTbl dcTblIndexLen r
  if siz = 0 then return (0, r)
  else
    let (dc, r) ← orSyntaxErr (readBitsLoad r siz)
    return (fixTerm siz dc, readBitsAdvance r siz)

/-- `parse_block`: the block, the prior DC values and the reader; its result `FALSE` is the
error `hitMarker`. -/
def parseBlock (g : JdecInst) (comp : Nat) (priorDc : List Int) (r : Reader) :
    Except Stop (List Int × List Int × Reader) := do
  let dequant := g.quantTbls (g.whichQuantTbl comp)
  let (diff, r) ← parseDC (g.dcTbls (g.whichDcTbl comp)) r
  let dc := diff + priorDc.getD comp 0
  let block := setZz (List.replicate 64 0) 0 (qnormToInput (dequant.getD 0 0 * dc))
  let (block, r) ← parseAC (g.acTbls (g.whichAcTbl comp)) dequant g.fDenali 64 1 block r
  return (block, priorDc.set comp dc, r)

def parseBlocks (g : JdecInst) : List Nat → List Int → Reader →
    Except Stop (List (List Int) × List Int × Reader)
  | [], priorDc, r => return ([], priorDc, r)
  | comp :: comps, priorDc, r => do
    let (block, priorDc, r) ← parseBlock g comp priorDc r
    let (blocks, priorDc, r) ← parseBlocks g comps priorDc r
    return (block :: blocks, priorDc, r)

def huffDefineTable (g : JdecInst) (ac : Bool) (id : Nat) (counts values : List UInt8) :
    JdecInst :=
  if ac then
    { g with acTbls := fun i => if i = id then calcTable counts values acTblIndexLen
        else g.acTbls i }
  else
    { g with dcTbls := fun i => if i = id then calcTable counts values dcTblIndexLen
        else g.dcTbls i }

/-- The decoder after the header that the encoder writes: its Huffman tables, and the
selectors of its frame and scan headers. -/
def ofHeader (cfg : Config) (quantTbls : Nat → List Int) : JdecInst :=
  (huffTables cfg).foldl
    (fun g (hclass, ident, counts, huffval) =>
      huffDefineTable g (hclass ≠ 0) ident.toNat counts (huffval.take (numCodes counts)))
    { dcTbls := fun _ => ⟨fun _ => 0, [], []⟩
      acTbls := fun _ => ⟨fun _ => 0, [], []⟩
      quantTbls
      whichQuantTbl := fun comp => if comp = 0 then 0 else 1
      whichDcTbl := fun comp => if comp = 0 then 0 else 1
      whichAcTbl := fun comp => if comp = 0 then 0 else 1
      fDenali := cfg.fDenali }

/-! ## Terms -/

theorem fixTerm_termBits {c : Int} (hc : c ≠ 0) (hfits : c.natAbs < 2 ^ 16) :
    fixTerm (codesize c.natAbs) (ofBits (termBits c)) = c := by
  obtain ⟨hpos, hlt, hle⟩ := codesize_spec (a := c.natAbs) (by lia) hfits
  rw [termBits]
  generalize codesize c.natAbs = s at *
  obtain ⟨s, rfl⟩ : ∃ k, s = k + 1 := ⟨s - 1, by lia⟩
  rw [Nat.add_sub_cancel] at hle
  have hdouble : 2 ^ (s + 1) = 2 * 2 ^ s := by rw [Nat.pow_succ, Nat.mul_comm]
  have hcast : (2 : Int) ^ (s + 1) = ((2 ^ (s + 1) : Nat) : Int) := by push_cast; rfl
  have hhalf : 0 < 2 ^ s := Nat.two_pow_pos s
  rw [ofBits_natBits, hcast]
  rcases lt_or_gt_of_ne hc with hneg | hpos'
  · -- a negative term has its highest bit clear
    have hvalue : ((c - 1) % ((2 ^ (s + 1) : Nat) : Int)).toNat = 2 ^ (s + 1) - 1 - c.natAbs := by
      have hmod : (c - 1) % ((2 ^ (s + 1) : Nat) : Int) = c - 1 + (2 ^ (s + 1) : Nat) := by
        rw [← Int.add_emod_right, Int.emod_eq_of_lt (by lia) (by lia)]
      rw [hmod]
      lia
    rw [if_pos hneg, hvalue, Nat.mod_eq_of_lt (by lia), fixTerm, Nat.add_sub_cancel,
      Nat.testBit_lt_two_pow (by lia), if_neg Bool.false_ne_true, hcast]
    lia
  · have hvalue : (c % ((2 ^ (s + 1) : Nat) : Int)).toNat = c.natAbs := by
      rw [Int.emod_eq_of_lt (by lia) (by lia)]
      lia
    have hbit : c.natAbs.testBit s = true := by
      rw [Nat.testBit_eq_decide_div_mod_eq, Nat.div_eq_of_lt_le (m := c.natAbs) (k := 1)
        (by lia) (by lia)]
      rfl
    rw [if_neg (by lia), hvalue, Nat.mod_eq_of_lt hlt, fixTerm, Nat.add_sub_cancel, hbit,
      if_pos rfl]
    lia

/-! ## Places -/

/-- The coefficients at zig-zag positions below `p` are in their places, dequantised, and
nothing behind them. -/
structure Placed (dequant : List Int) (c : Nat → Int) (p : Nat) (block : List Int) : Prop where
  size : block.length = 64
  entry : ∀ i < 64, block.getD (zigzagIndexTable.getD i 0) 0 =
    if i < p then qnormToInput (dequant.getD i 0 * c i) else 0

variable {dequant block : List Int} {c : Nat → Int} {p : Nat}

theorem zigzag_lt : ∀ i < 64, zigzagIndexTable.getD i 0 < 64 := by decide +kernel

theorem zigzag_inj : ∀ i < 64, ∀ j < 64,
    zigzagIndexTable.getD i 0 = zigzagIndexTable.getD j 0 → i = j := by decide +kernel

theorem zigzagIndexTbl_getD : ∀ i < 64,
    zigzagIndexTbl.getD i 0 = zigzagIndexTable.getD i 0 := by decide +kernel

theorem Placed.empty : Placed dequant c 0 (List.replicate 64 0) where
  size := rfl
  entry i hi := by
    rw [if_neg (Nat.not_lt_zero i), List.getD_eq_getElem _ _ (by
      rw [List.length_replicate]
      exact zigzag_lt i hi), List.getElem_replicate]

theorem Placed.skip {q : Nat} (h : Placed dequant c p block) (hpq : p ≤ q)
    (hzero : ∀ i, p ≤ i → i < q → c i = 0) : Placed dequant c q block where
  size := h.size
  entry i hi := by
    rw [h.entry i hi]
    by_cases hip : i < p
    · rw [if_pos hip, if_pos (by omega)]
    · rw [if_neg hip]
      by_cases hiq : i < q
      · rw [if_pos hiq, hzero i (by omega) hiq, Int.mul_zero]
        rfl
      · rw [if_neg hiq]

theorem Placed.store (h : Placed dequant c p block) (hp : p < 64) :
    Placed dequant c (p + 1) (setZz block p (qnormToInput (dequant.getD p 0 * c p))) where
  size := by rw [setZz, List.length_set, h.size]
  entry i hi := by
    have hlen := h.size
    rw [setZz, zigzagIndexTbl_getD p hp, List.getD_eq_getElem?_getD, List.getElem?_set]
    by_cases hip : i = p
    · subst hip
      rw [if_pos rfl, if_pos (by rw [hlen]; exact zigzag_lt i hi), if_pos (Nat.lt_succ_self i)]
      rfl
    · have hplace : zigzagIndexTable.getD p 0 ≠ zigzagIndexTable.getD i 0 := fun heq =>
        hip (zigzag_inj p hp i hi heq).symm
      rw [if_neg hplace, ← List.getD_eq_getElem?_getD, h.entry i hi]
      by_cases hlt : i < p
      · rw [if_pos hlt, if_pos (by lia)]
      · rw [if_neg hlt, if_neg (by lia)]

/-! ## A block -/

variable {dcHuff acHuff : List HuffElem} {counts huffval counts' huffval' : List UInt8}
  {fDenali : Bool} {m : UInt8} {t : List UInt8} {r : Reader} {rest : List Bool}

theorem dcTblIndexLen_le : dcTblIndexLen ≤ 16 := by decide

theorem acTblIndexLen_le : acTblIndexLen ≤ 16 := by decide

theorem parseAC_zrl (dequant block : List Int) (fDenali : Bool) (hm : m ≠ 0)
    (hac : Matched acHuff counts huffval acSymbols) {rounds : Nat} (k : Nat)
    (hr : r.Holds (0xff :: m :: t) (zrlBits acHuff k ++ rest))
    (hp : p + 16 * k < 64) (hrounds : 64 < rounds + p) :
    ∃ rounds' r', parseAC (calcTable counts huffval acTblIndexLen) dequant fDenali rounds p block r
        = parseAC (calcTable counts huffval acTblIndexLen) dequant fDenali rounds' (p + 16 * k)
          block r' ∧
      r'.Holds (0xff :: m :: t) rest ∧ 64 < rounds' + (p + 16 * k) := by
  induction k generalizing p r rounds with
  | zero => exact ⟨rounds, r, rfl, hr, hrounds⟩
  | succ k ih =>
    rw [zrlBits, List.append_assoc] at hr
    obtain ⟨rounds, rfl⟩ : ∃ j, rounds = j + 1 := ⟨rounds - 1, by lia⟩
    obtain ⟨r', hcode, hr'⟩ := hac.decodeHuff zrl_mem_acSymbols hm hr acTblIndexLen_le
    obtain ⟨rounds', r'', hmore, hr'', hrounds'⟩ := ih hr'
      (show p + 16 + 16 * k < 64 by lia) (show 64 < rounds + (p + 16) by lia)
    rw [show p + 16 * (k + 1) = p + 16 + 16 * k by lia]
    refine ⟨rounds', r'', ?_, hr'', hrounds'⟩
    rw [← hmore, parseAC, hcode]
    show (if 64 < p + 16 then _ else if 64 = p + 16 ∧ fDenali = false then _ else _) = _
    rw [if_neg (by lia), if_neg (by lia)]

/-- The AC loop reads what is left of a block. The induction is on the coefficients that are
left; `run` of them before `cs` were zeroes and are not written yet. -/
theorem parseAC_spec (hm : m ≠ 0) (hac : Matched acHuff counts huffval acSymbols) {rounds : Nat}
    (cs : List Int) {run : Nat}
    (hr : r.Holds (0xff :: m :: t) (acBits acHuff fDenali run cs ++ rest))
    (hblock : Placed dequant c p block) (hzero : ∀ i, p ≤ i → i < p + run → c i = 0)
    (hcs : ∀ k (hk : k < cs.length), cs[k] = c (p + run + k)) (hlen : p + run + cs.length = 64)
    (hfits : ∀ x ∈ cs, x.natAbs < 2 ^ 10) (hrounds : 64 < rounds + p)
    (hmore : cs ≠ [] ∨ 0 < run ∨ fDenali = true) :
    ∃ block' r', parseAC (calcTable counts huffval acTblIndexLen) dequant fDenali rounds p block r
        = .ok (block', r') ∧
      r'.Holds (0xff :: m :: t) rest ∧ Placed dequant c 64 block' := by
  induction cs generalizing run p block r rounds with
  | nil =>
    -- the end of the block
    have hend := hmore.resolve_left (fun h => h rfl)
    rw [acBits, if_pos hend] at hr
    obtain ⟨rounds, rfl⟩ : ∃ j, rounds = j + 1 := ⟨rounds - 1, by
      rw [List.length_nil] at hlen
      lia⟩
    obtain ⟨r', hcode, hr'⟩ := hac.decodeHuff zero_mem_acSymbols hm hr acTblIndexLen_le
    refine ⟨block, r', ?_, hr', hblock.skip (by lia) fun i hi hi' => hzero i hi (by
      rw [List.length_nil] at hlen
      lia)⟩
    rw [parseAC, hcode]
    rfl
  | cons x cs ih =>
    have hx : x = c (p + run) := hcs 0 (Nat.zero_lt_succ _)
    have htail : ∀ k (hk : k < cs.length), cs[k] = c (p + run + 1 + k) := fun k hk => by
      have := hcs (k + 1) (Nat.succ_lt_succ hk)
      rwa [List.getElem_cons_succ, show p + run + (k + 1) = p + run + 1 + k by lia] at this
    have hfits' := fun y hy => hfits y (List.mem_cons_of_mem _ hy)
    rw [List.length_cons] at hlen
    rw [acBits] at hr
    by_cases hx0 : x = 0
    · -- one more zero of the run
      rw [if_pos hx0] at hr
      refine ih hr hblock (fun i hi hi' => ?_) (fun k hk => ?_) (by lia) hfits' hrounds
        (Or.inr (Or.inl (Nat.zero_lt_succ run)))
      · rcases Nat.lt_or_ge i (p + run) with hlt | hge
        · exact hzero i hi hlt
        · rw [show i = p + run by lia, ← hx, hx0]
      · rw [htail k hk]
        congr 1
    · rw [if_neg hx0, List.append_assoc, List.append_assoc, List.append_assoc] at hr
      obtain ⟨rounds', r₁, hruns, hr₁, hrounds'⟩ := parseAC_zrl dequant
        block fDenali hm hac (run / 16) hr (by lia) hrounds
      obtain ⟨rounds', rfl⟩ : ∃ j, rounds' = j + 1 := ⟨rounds' - 1, by lia⟩
      have hxfits := hfits x List.mem_cons_self
      have hsize := codesize_spec (a := x.natAbs) (by lia) (by lia)
      have hten := codesize_le hxfits (by decide)
      have hfix := fixTerm_termBits hx0 (by lia)
      obtain ⟨r₂, hcode, hr₂⟩ := hac.decodeHuff
        (mem_acSymbols (Nat.mod_lt run (by decide)) hsize.1 hten) hm hr₁ acTblIndexLen_le
      have hterm : (termBits x).length = codesize x.natAbs := natBits_length _ _
      obtain ⟨r₃, hload, hr₃, hcached⟩ := readBitsLoad_holds hm (n := codesize x.natAbs) hr₂
        (by lia) (Or.inl (by rw [List.length_append, hterm]; lia))
      rw [field_append hterm] at hload
      have hr₄ := readBitsAdvance_holds hr₃ hterm (by
        rw [List.length_append, hterm] at hcached
        lia)
      have hplaced := (hblock.skip (Nat.le_add_right p run) hzero).store (by lia)
      -- what the round does with the term
      have hstep : parseAC (calcTable counts huffval acTblIndexLen) dequant fDenali (rounds' + 1)
          (p + 16 * (run / 16)) block r₁
          = if 64 < p + run + 1 then .error .syntaxErr
            else if 64 = p + run + 1 ∧ fDenali = false then
              .ok (setZz block (p + run) (qnormToInput (dequant.getD (p + run) 0 * c (p + run))),
                readBitsAdvance r₃ (codesize x.natAbs))
            else parseAC (calcTable counts huffval acTblIndexLen) dequant fDenali rounds'
              (p + run + 1)
              (setZz block (p + run) (qnormToInput (dequant.getD (p + run) 0 * c (p + run))))
              (readBitsAdvance r₃ (codesize x.natAbs)) := by
        have hrun : (run % 16 * 16 + codesize x.natAbs) / 16 = run % 16 := by lia
        have hsiz : (run % 16 * 16 + codesize x.natAbs) % 16 = codesize x.natAbs := by lia
        have hplace : p + 16 * (run / 16) + run % 16 = p + run := by lia
        rw [parseAC, hcode]
        show (if (run % 16 * 16 + codesize x.natAbs) % 16 = 0 then _ else _) = _
        rw [hsiz, if_neg (by lia), hload, hrun, hplace]
        show (if 64 < p + run + 1 then _ else if _ then Except.ok (setZz block (p + run)
          (qnormToInput (dequant.getD (p + run) 0 * fixTerm (codesize x.natAbs)
            (ofBits (termBits x)))), _) else _) = _
        rw [hfix, hx]
      rw [hruns, hstep, if_neg (by lia)]
      by_cases hlast : 64 = p + run + 1 ∧ fDenali = false
      · -- the last coefficient is not zero, and nothing follows it
        have hnil : cs = [] := List.eq_nil_of_length_eq_zero (by lia)
        rw [if_pos hlast]
        refine ⟨_, _, rfl, ?_, hlast.1 ▸ hplaced⟩
        rw [hnil, acBits, if_neg (by simp [hlast.2])] at hr₄
        exact hr₄
      · rw [if_neg hlast]
        refine ih hr₄ hplaced (fun i hi hi' => by lia) htail (by lia) hfits'
          (by lia) ?_
        rcases cs with _ | ⟨y, cs⟩
        · right; right
          rw [List.length_nil] at hlen
          cases fDenali with
          | false => exact absurd ⟨by lia, rfl⟩ hlast
          | true => rfl
        · exact Or.inl (List.cons_ne_nil _ _)

theorem parseDC_spec (hm : m ≠ 0) (hdc : Matched dcHuff counts huffval dcSymbols) {diff : Int}
    (hfits : diff.natAbs < 2 ^ 11)
    (hr : r.Holds (0xff :: m :: t)
      (huffBits dcHuff (codesize diff.natAbs) ++ (termBits diff ++ rest))) :
    ∃ r', parseDC (calcTable counts huffval dcTblIndexLen) r = .ok (diff, r') ∧
      r'.Holds (0xff :: m :: t) rest := by
  have hle := codesize_le hfits (by decide)
  obtain ⟨r₁, hcode, hr₁⟩ := hdc.decodeHuff (List.mem_range.mpr (by lia)) hm hr dcTblIndexLen_le
  have hterm : (termBits diff).length = codesize diff.natAbs := natBits_length _ _
  rw [parseDC, hcode]
  show ∃ r', (if codesize diff.natAbs = 0 then _ else _) = _ ∧ _
  by_cases hzero : diff = 0
  · subst hzero
    rw [if_pos (show codesize (Int.natAbs 0) = 0 from codesize_zero)]
    rw [show termBits 0 = [] from rfl, List.nil_append] at hr₁
    exact ⟨r₁, rfl, hr₁⟩
  · have hsize := codesize_spec (a := diff.natAbs) (by lia) (by lia)
    obtain ⟨r₂, hload, hr₂, hcached⟩ := readBitsLoad_holds hm (n := codesize diff.natAbs) hr₁
      (by lia) (Or.inl (by rw [List.length_append, hterm]; lia))
    rw [field_append hterm] at hload
    rw [if_neg (by lia), hload]
    refine ⟨readBitsAdvance r₂ (codesize diff.natAbs), ?_, readBitsAdvance_holds hr₂ hterm (by
      rw [List.length_append, hterm] at hcached
      lia)⟩
    show Except.ok (fixTerm (codesize diff.natAbs) (ofBits (termBits diff)), _) = _
    rw [fixTerm_termBits hzero (by lia)]

/-- The block holds the coefficients in their zig-zag places, dequantised. -/
def Restores (dequant : List Int) (c : Nat → Int) (block : List Int) : Prop :=
  block.length = 64 ∧ ∀ i < 64,
    block.getD (zigzagIndexTable.getD i 0) 0 = qnormToInput (dequant.getD i 0 * c i)

theorem parseBlock_spec (hm : m ≠ 0) {g : JdecInst} {comp : Nat} {priorDc : List Int}
    {table : WinoTable} {encBlock : List Int}
    (hdc : Matched dcHuff counts huffval dcSymbols)
    (hac : Matched acHuff counts' huffval' acSymbols)
    (hdcTbl : g.dcTbls (g.whichDcTbl comp) = calcTable counts huffval dcTblIndexLen)
    (hacTbl : g.acTbls (g.whichAcTbl comp) = calcTable counts' huffval' acTblIndexLen)
    (hdiff : (coef table encBlock 0 - priorDc.getD comp 0).natAbs < 2 ^ 11)
    (hfits : ∀ i < 64, i ≠ 0 → (coef table encBlock i).natAbs < 2 ^ 10)
    (hr : r.Holds (0xff :: m :: t) (blockBits dcHuff acHuff g.fDenali
      (coef table encBlock 0 - priorDc.getD comp 0) (acCoefs table encBlock) ++ rest)) :
    ∃ block r', parseBlock g comp priorDc r
        = .ok (block, priorDc.set comp (coef table encBlock 0), r') ∧
      r'.Holds (0xff :: m :: t) rest ∧
      Restores (g.quantTbls (g.whichQuantTbl comp)) (coef table encBlock) block := by
  rw [blockBits, List.append_assoc, List.append_assoc] at hr
  obtain ⟨r₁, hparse, hr₁⟩ := parseDC_spec hm hdc hdiff hr
  have hempty : Placed (g.quantTbls (g.whichQuantTbl comp)) (coef table encBlock) 0
      (List.replicate 64 0) := Placed.empty
  have hfirst := hempty.store (by decide)
  obtain ⟨block, r₂, hloop, hr₂, hplaced⟩ := parseAC_spec hm hac
    (acCoefs table encBlock) hr₁ hfirst (fun i hi hi' => by omega)
    (fun k hk => by
      simp only [acCoefs, List.getElem_map, List.getElem_range', Nat.one_mul, Nat.zero_add,
        Nat.add_zero])
    (by simp [acCoefs])
    (fun x hx => by
      obtain ⟨i, hi, rfl⟩ := List.mem_map.mp hx
      rw [List.mem_range'_1] at hi
      exact hfits i (by omega) (by omega))
    (show 64 < 64 + (0 + 1) by decide) (Or.inl (by simp [acCoefs]))
  refine ⟨block, r₂, ?_, hr₂, hplaced.size, fun i hi => ?_⟩
  · have hdcValue : coef table encBlock 0 - priorDc.getD comp 0 + priorDc.getD comp 0
        = coef table encBlock 0 := by omega
    rw [parseBlock, hdcTbl, hacTbl, hparse]
    show (Bind.bind (parseAC _ _ _ 64 1 (setZz _ 0 (qnormToInput (_ *
      (coef table encBlock 0 - priorDc.getD comp 0 + priorDc.getD comp 0)))) r₁) _) = _
    rw [hdcValue, hloop]
    rfl
  · rw [hplaced.entry i hi, if_pos hi]

/-! ## A scan -/

def dcHuffOf (comp : Nat) : List HuffElem := if comp = 0 then lumDCTable else chromDCTable

def acHuffOf (fDenali : Bool) (comp : Nat) : List HuffElem :=
  if comp = 0 then if fDenali then lumACTableDenali else lumACTable else chromACTable

theorem encodeComp_eq (fDenali : Bool) (lum chrom : WinoTable) (w : Writer) (b : Nat × List Int) :
    encodeComp fDenali lum chrom w b =
      encodeBlock w b.1 fDenali (dcHuffOf b.1) (acHuffOf fDenali b.1)
        (compTable lum chrom b.1).quant (compTable lum chrom b.1).thresh b.2 := by
  rw [encodeComp, dcHuffOf, acHuffOf, compTable]
  by_cases hcomp : b.1 = 0
  · simp only [if_pos hcomp]
  · simp only [if_neg hcomp]

def JdecInst.selectors (g : JdecInst) : JdecInst :=
  { g with dcTbls := fun _ => ⟨fun _ => 0, [], []⟩, acTbls := fun _ => ⟨fun _ => 0, [], []⟩ }

theorem huffDefineTable_selectors (g : JdecInst) (ac : Bool) (id : Nat)
    (counts values : List UInt8) :
    (huffDefineTable g ac id counts values).selectors = g.selectors := by
  cases ac <;> rfl

theorem huffDefineTables_selectors (tables : List JpegEnc.HuffTable) (g : JdecInst) :
    (tables.foldl (fun g (hclass, ident, counts, huffval) =>
      huffDefineTable g (hclass ≠ 0) ident.toNat counts (huffval.take (numCodes counts)))
      g).selectors = g.selectors := by
  induction tables generalizing g with
  | nil => rfl
  | cons table tables ih =>
    rw [List.foldl_cons, ih]
    exact huffDefineTable_selectors g _ _ _ _

theorem ofHeader_selectors (cfg : Config) (quantTbls : Nat → List Int) :
    (ofHeader cfg quantTbls).selectors =
      { dcTbls := fun _ => ⟨fun _ => 0, [], []⟩
        acTbls := fun _ => ⟨fun _ => 0, [], []⟩
        quantTbls
        whichQuantTbl := fun comp => if comp = 0 then 0 else 1
        whichDcTbl := fun comp => if comp = 0 then 0 else 1
        whichAcTbl := fun comp => if comp = 0 then 0 else 1
        fDenali := cfg.fDenali } :=
  huffDefineTables_selectors (huffTables cfg) _

theorem ofHeader_whichDcTbl (cfg : Config) (quantTbls : Nat → List Int) (comp : Nat) :
    (ofHeader cfg quantTbls).whichDcTbl comp = if comp = 0 then 0 else 1 :=
  congrArg (fun g => g.whichDcTbl comp) (ofHeader_selectors cfg quantTbls)

theorem ofHeader_whichAcTbl (cfg : Config) (quantTbls : Nat → List Int) (comp : Nat) :
    (ofHeader cfg quantTbls).whichAcTbl comp = if comp = 0 then 0 else 1 :=
  congrArg (fun g => g.whichAcTbl comp) (ofHeader_selectors cfg quantTbls)

theorem ofHeader_quantTbl (cfg : Config) (quantTbls : Nat → List Int) (comp : Nat) :
    (ofHeader cfg quantTbls).quantTbls ((ofHeader cfg quantTbls).whichQuantTbl comp)
      = quantTbls (if comp = 0 then 0 else 1) :=
  congrArg (fun g => g.quantTbls (g.whichQuantTbl comp)) (ofHeader_selectors cfg quantTbls)

theorem ofHeader_fDenali (cfg : Config) (quantTbls : Nat → List Int) :
    (ofHeader cfg quantTbls).fDenali = cfg.fDenali :=
  congrArg JdecInst.fDenali (ofHeader_selectors cfg quantTbls)

theorem take_numCodes :
    lumDCValues.take (numCodes lumDCCounts) = lumDCValues ∧
      lumACValues.take (numCodes lumACCounts) = lumACValues ∧
      lumACValues.take (numCodes lumACCountsDenali) = lumACValues ∧
      chromDCValues.take (numCodes chromDCCounts) = chromDCValues ∧
      chromACValues.take (numCodes chromACCounts) = chromACValues := by
  decide +kernel

theorem ofHeader_tables {cfg : Config} (quantTbls : Nat → List Int)
    (hcomps : cfg.compsInPixel = 1 ∨ cfg.compsInPixel = 3) :
    (ofHeader cfg quantTbls).dcTbls 0 = calcTable lumDCCounts lumDCValues dcTblIndexLen ∧
      (ofHeader cfg quantTbls).acTbls 0 =
        calcTable (if cfg.fDenali then lumACCountsDenali else lumACCounts) lumACValues
          acTblIndexLen ∧
      (cfg.compsInPixel = 3 →
        (ofHeader cfg quantTbls).dcTbls 1 = calcTable chromDCCounts chromDCValues dcTblIndexLen ∧
        (ofHeader cfg quantTbls).acTbls 1
          = calcTable chromACCounts chromACValues acTblIndexLen) := by
  obtain ⟨hlumDC, hlumAC, hlumACDenali, hchromDC, hchromAC⟩ := take_numCodes
  have htake : lumACValues.take
      (numCodes (if cfg.fDenali then lumACCountsDenali else lumACCounts)) = lumACValues := by
    cases cfg.fDenali with
    | false => exact hlumAC
    | true => exact hlumACDenali
  rcases hcomps with h | h
  · refine ⟨?_, ?_, fun h3 => by omega⟩ <;>
      simp [ofHeader, huffTables, h, huffDefineTable, hlumDC, htake]
  · refine ⟨?_, ?_, fun _ => ⟨?_, ?_⟩⟩ <;>
      simp [ofHeader, huffTables, h, huffDefineTable, hlumDC, htake, hchromDC, hchromAC]

theorem ofHeader_matched {cfg : Config} (quantTbls : Nat → List Int) {comp : Nat}
    (hcomps : cfg.compsInPixel = 1 ∨ cfg.compsInPixel = 3) (hcomp : comp < cfg.compsInPixel) :
    ∃ counts huffval counts' huffval',
      Matched (dcHuffOf comp) counts huffval dcSymbols ∧
      Matched (acHuffOf cfg.fDenali comp) counts' huffval' acSymbols ∧
      (ofHeader cfg quantTbls).dcTbls ((ofHeader cfg quantTbls).whichDcTbl comp)
        = calcTable counts huffval dcTblIndexLen ∧
      (ofHeader cfg quantTbls).acTbls ((ofHeader cfg quantTbls).whichAcTbl comp)
        = calcTable counts' huffval' acTblIndexLen := by
  have htable := ofHeader_tables quantTbls hcomps
  rw [ofHeader_whichDcTbl, ofHeader_whichAcTbl]
  by_cases hluma : comp = 0
  · subst hluma
    refine ⟨lumDCCounts, lumDCValues, if cfg.fDenali then lumACCountsDenali else lumACCounts,
      lumACValues, lumDC_matched, ?_, htable.1, htable.2.1⟩
    cases cfg.fDenali with
    | false => exact lumAC_matched
    | true => exact lumACDenali_matched
  · have hcolor : cfg.compsInPixel = 3 := by lia
    rw [if_neg hluma]
    refine ⟨chromDCCounts, chromDCValues, chromACCounts, chromACValues, ?_, ?_,
      (htable.2.2 hcolor).1, (htable.2.2 hcolor).2⟩
    · rw [dcHuffOf, if_neg hluma]
      exact chromDC_matched
    · rw [acHuffOf, if_neg hluma]
      exact chromAC_matched

def scanBits (fDenali : Bool) (lum chrom : WinoTable) :
    List Int → List (Nat × List Int) → List Bool
  | _, [] => []
  | priorDC, (comp, b) :: blocks =>
    let t := compTable lum chrom comp
    blockBits (dcHuffOf comp) (acHuffOf fDenali comp) fDenali
        (coef t b 0 - priorDC.getD comp 0) (acCoefs t b)
      ++ scanBits fDenali lum chrom (priorDC.set comp (coef t b 0)) blocks

variable {cfg : Config} {lum chrom : WinoTable}
  {blocks : List (Nat × List Int)}

theorem encodeBlocks_wrote {w : Writer} {bits : List Bool}
    (hcomps : cfg.compsInPixel = 1 ∨ cfg.compsInPixel = 3)
    (hblocks : ∀ b ∈ blocks, b.1 < cfg.compsInPixel)
    (hfits : Baseline lum chrom w.1.priorDC blocks) (h : w.Wrote bits) :
    (blocks.foldl (encodeComp cfg.fDenali lum chrom) w).Wrote
      (bits ++ scanBits cfg.fDenali lum chrom w.1.priorDC blocks) := by
  induction blocks generalizing w bits with
  | nil =>
    rw [scanBits, List.append_nil]
    exact h
  | cons b blocks ih =>
    obtain ⟨comp, b⟩ := b
    obtain ⟨hdiff, hac, hrest⟩ := hfits
    obtain ⟨counts, huffval, counts', huffval', hdcM, hacM, -, -⟩ :=
      ofHeader_matched (fun _ => []) hcomps (hblocks _ List.mem_cons_self)
    obtain ⟨hwrote, hprior⟩ := encodeBlock_wrote cfg.fDenali h hdcM hacM hdiff hac
    rw [List.foldl_cons, scanBits, ← List.append_assoc, encodeComp_eq]
    rw [← hprior] at hrest ⊢
    exact ih (fun x hx => hblocks x (List.mem_cons_of_mem _ hx)) hrest hwrote

theorem parseBlocks_spec (quantTbls : Nat → List Int) (hm : m ≠ 0) {priorDc : List Int}
    (hcomps : cfg.compsInPixel = 1 ∨ cfg.compsInPixel = 3)
    (hblocks : ∀ b ∈ blocks, b.1 < cfg.compsInPixel) (hfits : Baseline lum chrom priorDc blocks)
    (hr : r.Holds (0xff :: m :: t) (scanBits cfg.fDenali lum chrom priorDc blocks ++ rest)) :
    ∃ outs priorDc' r', parseBlocks (ofHeader cfg quantTbls) (blocks.map Prod.fst) priorDc r
        = .ok (outs, priorDc', r') ∧
      r'.Holds (0xff :: m :: t) rest ∧
      List.Forall₂ (fun b out => Restores (quantTbls (if b.1 = 0 then 0 else 1))
        (coef (compTable lum chrom b.1) b.2) out) blocks outs := by
  induction blocks generalizing priorDc r with
  | nil =>
    exact ⟨[], priorDc, r, rfl, hr, List.Forall₂.nil⟩
  | cons b blocks ih =>
    obtain ⟨comp, b⟩ := b
    obtain ⟨hdiff, hac, hrest⟩ := hfits
    obtain ⟨counts, huffval, counts', huffval', hdcM, hacM, hdcTbl, hacTbl⟩ :=
      ofHeader_matched quantTbls hcomps (hblocks _ List.mem_cons_self)
    rw [scanBits, List.append_assoc, ← ofHeader_fDenali cfg quantTbls] at hr
    obtain ⟨block, r₁, hparse, hr₁, hrestores⟩ :=
      parseBlock_spec hm hdcM (ofHeader_fDenali cfg quantTbls ▸ hacM) hdcTbl hacTbl hdiff hac hr
    rw [ofHeader_fDenali] at hr₁
    rw [ofHeader_quantTbl] at hrestores
    obtain ⟨outs, priorDc', r₂, hmore, hr₂, houts⟩ :=
      ih (fun x hx => hblocks x (List.mem_cons_of_mem _ hx)) hrest hr₁
    refine ⟨block :: outs, priorDc', r₂, ?_, hr₂, List.Forall₂.cons hrestores houts⟩
    rw [List.map_cons, parseBlocks, hparse]
    show (Bind.bind (parseBlocks _ (blocks.map Prod.fst) _ r₁) _) = _
    rw [hmore]
    rfl

/-! ## The marker -/

theorem next_of_fill {k : Nat} (hk : k < 8)
    (hr : r.Holds (0xff :: m :: t) (List.replicate k true)) :
    r.next = 0xff :: m :: t ∧
      (r.rdBitsAvail = k ∧ r.rdBitBuf % 2 ^ k = 2 ^ k - 1) := by
  obtain ⟨us, hnext, hbits⟩ := hr.rest
  have hlow := hr.low
  have hlen := congrArg List.length hbits
  rw [List.length_replicate, List.length_append, natBits_length, bitsOf_length] at hlen
  have hus : us = [] := List.eq_nil_of_length_eq_zero (by lia)
  have havail : r.rdBitsAvail.toNat = k := by
    rw [hus, List.length_nil] at hlen
    lia
  rw [hus, stuff_nil, List.nil_append] at hnext
  rw [hus, bitsOf_nil, List.append_nil, havail, ← natBits_two_pow_sub_one] at hbits
  have hvalue := congrArg ofBits hbits
  rw [ofBits_natBits, ofBits_natBits,
    Nat.mod_eq_of_lt (Nat.sub_lt (Nat.two_pow_pos k) Nat.one_pos)] at hvalue
  exact ⟨hnext, by lia, hvalue.symm⟩

theorem parseBlock_hitMarker (hm : m ≠ 0) {k : Nat} (hk : k < 8)
    (hr : r.Holds (0xff :: m :: t) (List.replicate k true)) (g : JdecInst) (comp : Nat)
    (priorDc : List Int) : parseBlock g comp priorDc r = .error .hitMarker := by
  obtain ⟨hnext, havail, hones⟩ := next_of_fill hk hr
  have hcan : CantLoadNearMarker r.rdBitBuf r.rdBitsAvail := by
    right
    rw [havail, Int.toNat_natCast]
    exact ⟨by omega, hones⟩
  have hloop : loadLoop r.rdBitBuf r.rdBitsAvail r.next = .error .hitMarker := by
    rw [hnext, loadLoop.eq_def]
    exact (if_pos rfl).trans ((if_pos hm).trans (if_pos hcan))
  have hload : readBitsLoad r dcTblIndexLen = .error .hitMarker := by
    have hfew : r.rdBitsAvail < (dcTblIndexLen : Nat) := by
      show r.rdBitsAvail < ((9 : Nat) : Int)
      omega
    rw [readBitsLoad]
    simp only [if_pos hfew, hloop]
    rfl
  rw [parseBlock, parseDC, decodeHuff, hload]
  rfl

/-! ## The round trip -/

/-- Every block that was written is read back into its places, and the decoder is left on the
marker, where the next call finds it. -/
theorem scan_round_trip (cfg : Config) (lum chrom : WinoTable) (quantTbls : Nat → List Int)
    (blocks : List (Nat × List Int)) (hcomps : cfg.compsInPixel = 1 ∨ cfg.compsInPixel = 3)
    (hblocks : ∀ b ∈ blocks, b.1 < cfg.compsInPixel)
    (hfits : Baseline lum chrom [0, 0, 0, 0] blocks) :
    ∃ outs priorDc r,
      parseBlocks (ofHeader cfg quantTbls) (blocks.map Prod.fst) [0, 0, 0, 0]
          (Reader.init (scan cfg.fDenali lum chrom blocks)) = .ok (outs, priorDc, r) ∧
        List.Forall₂ (fun b out => Restores (quantTbls (if b.1 = 0 then 0 else 1))
          (coef (compTable lum chrom b.1) b.2) out) blocks outs ∧
        r.next = emWriteEOI ∧
        ∀ comp, parseBlock (ofHeader cfg quantTbls) comp priorDc r = .error .hitMarker := by
  have hwrote := encodeBlocks_wrote (w := (Coder.init, [])) hcomps hblocks hfits
    Coder.init_wrote
  obtain ⟨us, k, hbytes, hk, hbits⟩ := writeBitsFlush_wrote hwrote
  have hr : (Reader.init (scan cfg.fDenali lum chrom blocks)).Holds emWriteEOI
      (scanBits cfg.fDenali lum chrom [0, 0, 0, 0] blocks ++ List.replicate k true) := by
    refine ⟨Int.le_refl 0, (by decide : (0 : Int) ≤ 32), us, ?_, ?_⟩
    · show scan cfg.fDenali lum chrom blocks = _
      rw [scan, ← hbytes]
    · rw [hbits, List.nil_append]
      rfl
  have hm : (0xd9 : UInt8) ≠ 0 := by decide
  obtain ⟨outs, priorDc, r, hparse, hr', houts⟩ :=
    parseBlocks_spec quantTbls hm hcomps hblocks hfits hr
  exact ⟨outs, priorDc, r, hparse, houts, (next_of_fill hk hr').1,
    fun comp => parseBlock_hitMarker hm hk hr' _ comp priorDc⟩

def unitTable : WinoTable where
  quant := List.replicate 64 (2 ^ 15)
  size := List.length_replicate
  pos q hq := by
    rw [List.eq_of_mem_replicate hq]
    decide

/-- A colour image of a Denali: a negative difference, a run of 16 zeroes and more, and a last
coefficient that is not 0. -/
def denaliColor : Config := { openXform.cfg with compsInPixel := 3, fDenali := true }

def denaliBlocks : List (Nat × List Int) :=
  [(0, (List.replicate 64 0).set 0 (-700) |>.set 58 (-3) |>.set 63 1023),
   (1, (List.replicate 64 0).set 1 1), (2, List.replicate 64 0)]

theorem scan_round_trip_denali :
    ∃ outs priorDc r,
      parseBlocks (ofHeader denaliColor fun _ => List.replicate 64 (2 ^ 11))
          (denaliBlocks.map Prod.fst) [0, 0, 0, 0]
          (Reader.init (scan denaliColor.fDenali unitTable unitTable denaliBlocks))
        = .ok (outs, priorDc, r) ∧
        List.Forall₂ (fun b out => Restores (List.replicate 64 (2 ^ 11))
          (coef (compTable unitTable unitTable b.1) b.2) out) denaliBlocks outs ∧
        r.next = emWriteEOI ∧
        ∀ comp, parseBlock (ofHeader denaliColor fun _ => List.replicate 64 (2 ^ 11)) comp priorDc r
          = .error .hitMarker :=
  scan_round_trip denaliColor unitTable unitTable (fun _ => List.replicate 64 (2 ^ 11))
    denaliBlocks (Or.inr rfl) (by decide)
    ⟨by decide +kernel, by decide +kernel, by decide +kernel, by decide +kernel,
      by decide +kernel, by decide +kernel, trivial⟩

end Hplip.Ip.JpegDec
