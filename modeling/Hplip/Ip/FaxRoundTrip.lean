import Mathlib
import Hplip.Ip.FaxModes
import Hplip.Ip.FaxConceal

/-!
# Fax rows written and read back (xfax.c)

The codes that the encoder writes for a row take the decoder's pen over this row, in one dimension
and in two. A code is recognised whatever follows it, because all indexes that begin with it are in
one stretch of the table.
-/

namespace Hplip.Ip

open Bits Scan RowCoding

variable {g : DecInst} {s : Decoding} {b : Gb} {tbl : HuffTable} {te : HuffT} {v n w : Nat}
  {p p' : Pen} {row ref : Nat → Bool} {out : List UInt8} {rest : List Bool}

/-! ## Codes -/

/-- What the `n` entries from `lo` on are, if one stretch holds them. -/
def entryFrom : List (Nat × Nat) → Nat → Nat → Option Nat
  | [], _, _ => none
  | (len, x) :: rest, lo, n =>
    if lo + n ≤ len then some x else if len ≤ lo then entryFrom rest (lo - len) n else none

theorem stretchAt_of_entryFrom {l : List (Nat × Nat)} {lo x i : Nat}
    (h : entryFrom l lo n = some x) (hlo : lo ≤ i) (hi : i < lo + n) : stretchAt l i = x := by
  induction l generalizing lo i with
  | nil => cases h
  | cons stretch rest ih =>
    obtain ⟨len, y⟩ := stretch
    rw [entryFrom] at h
    split_ifs at h with hin hpast
    · cases h
      rw [stretchAt, if_pos (by omega)]
    · rw [stretchAt, if_neg (by omega)]
      exact ih h (by omega) (by omega)

/-- The table has a code, and it stands for `v`. -/
def HuffTable.Has (tbl : HuffTable) (te : HuffT) (v : Nat) : Prop :=
  0 < te.length ∧ te.length ≤ tbl.bitsInIndex ∧ te.bits < 2 ^ te.length ∧ v < 2 ^ 12 ∧
    (entryFrom tbl.indexTbl (te.bits * 2 ^ (tbl.bitsInIndex - te.length))
      (2 ^ (tbl.bitsInIndex - te.length))).map (tbl.valueTbl[·]!) = some (te.length * 2 ^ 12 + v)

instance (tbl : HuffTable) (te : HuffT) (v : Nat) : Decidable (tbl.Has te v) :=
  inferInstanceAs (Decidable (_ ∧ _))

theorem HuffTable.Has.values (h : tbl.Has te v)
    (hlen : tbl.bitsInIndex ≤ te.length + rest.length) :
    tbl.values (ofBits ((te.word ++ rest).take tbl.bitsInIndex)) = te.length * 2 ^ 12 + v := by
  obtain ⟨-, hle, hbits, -, hentry⟩ := h
  obtain ⟨x, hx, hvalue⟩ := Option.map_eq_some_iff.mp hentry
  have hword : te.word.length = te.length := natBits_length _ _
  have htail : (rest.take (tbl.bitsInIndex - te.length)).length = tbl.bitsInIndex - te.length :=
    List.length_take_of_le (by omega)
  have hlt := ofBits_lt (rest.take (tbl.bitsInIndex - te.length))
  have hindex : ofBits ((te.word ++ rest).take tbl.bitsInIndex)
      = te.bits * 2 ^ (tbl.bitsInIndex - te.length)
        + ofBits (rest.take (tbl.bitsInIndex - te.length)) := by
    rw [List.take_append, hword, List.take_of_length_le (hword.trans_le hle), ofBits_append, htail,
      HuffT.word, ofBits_natBits, Nat.mod_eq_of_lt hbits]
  rw [htail] at hlt
  rw [hindex, HuffTable.values, stretchAt_of_entryFrom hx (Nat.le_add_right _ _) (by omega)]
  exact hvalue

/-- A code is parsed whatever follows it. -/
theorem HuffTable.Has.parseBits (h : tbl.Has te v)
    (hlen : tbl.bitsInIndex ≤ te.length + rest.length) :
    parseBits tbl (te.word ++ rest) = (.gotCode v, rest) := by
  have hword : te.word.length = te.length := natBits_length _ _
  obtain ⟨hpos, -, -, hv, -⟩ := id h
  rw [Ip.parseBits, h.values hlen, if_neg (by rw [List.length_append, hword]; omega)]
  dsimp only
  rw [if_pos (by omega), show (te.length * 2 ^ 12 + v) % 2 ^ 12 = v by omega,
    show (te.length * 2 ^ 12 + v) / 2 ^ 12 = te.length by omega, List.drop_left' hword]

theorem HuffTable.Has.parseCode (h : tbl.Has te v) (htbl : tbl.Good) (hwf : b.Wf)
    (havail : b.avail = te.word ++ rest) (hlen : 13 ≤ rest.length) :
    ∃ b', parseCode b tbl = .ok (.gotCode v, b') ∧ Parses b b' rest := by
  obtain ⟨b', hparse, hparses, -⟩ := parseCode_spec htbl hwf
  have hindex := htbl.index_le
  rw [havail, h.parseBits (by omega)] at hparse hparses
  exact ⟨b', hparse, hparses⟩

theorem runTable_has (white : Bool) (hv : v ∈ runValues) :
    (runTable white).Has (runCode (!white) v) v := by
  have hall : ∀ white, ∀ v ∈ runValues, (runTable white).Has (runCode (!white) v) v := by
    decide +kernel
  exact hall white v hv

/-- What ends a row, and how it is reported. -/
inductive EndWord : List Bool → Code → Ret → Prop
  | eol : EndWord eolWord .hitEol ⟨true, false, true, false⟩
  | fill : EndWord (List.replicate 12 false) .fill ⟨true, false, false, true⟩

variable {word : List Bool} {stop : Code} {ret : Ret}

theorem EndWord.length (h : EndWord word stop ret) : word.length = 12 := by
  cases h <;> rfl

theorem EndWord.long (h : EndWord word stop ret) (hrest : rest ≠ []) :
    13 ≤ (word ++ rest).length := by
  have := List.length_pos_iff.mpr hrest
  rw [List.length_append, h.length]
  omega

/-- The end of a row is found by every table. -/
theorem EndWord.parseCode (white : Bool) (h : EndWord word stop ret)
    (htbl : tbl = vertTable ∨ tbl = runTable white) (hwf : b.Wf) (havail : b.avail = word ++ rest)
    (hrest : rest ≠ []) :
    ∃ b', parseCode b tbl = .ok (stop, b') ∧ Parses b b' rest ∧
      (ret.hitEol = true → 0 < b'.cacheCnt) := by
  have hlong := h.long hrest
  obtain ⟨bit, rest, rfl⟩ := List.exists_cons_of_ne_nil hrest
  have hgood : tbl.Good := by
    rcases htbl with rfl | rfl
    · exact vertTable_good
    · exact runTable_good _
  have hvalue : tbl.values (ofBits ((word ++ [bit]).take tbl.bitsInIndex)) = 0 := by
    have hall : (∀ bit, ∀ word ∈ [eolWord, List.replicate 12 false],
          vertTable.values (ofBits ((word ++ [bit]).take vertTable.bitsInIndex)) = 0) ∧
        ∀ white bit, ∀ word ∈ [eolWord, List.replicate 12 false],
          (runTable white).values (ofBits ((word ++ [bit]).take (runTable white).bitsInIndex))
            = 0 := by decide +kernel
    have hmem : word ∈ [eolWord, List.replicate 12 false] := by cases h <;> simp
    rcases htbl with rfl | rfl
    · exact hall.1 bit word hmem
    · exact hall.2 white bit word hmem
  have hparse : parseBits tbl (word ++ bit :: rest) = (stop, bit :: rest) := by
    have hindex := hgood.index_le
    have hwindow : (word ++ bit :: rest).take tbl.bitsInIndex
        = (word ++ [bit]).take tbl.bitsInIndex := by
      rw [show word ++ bit :: rest = (word ++ [bit]) ++ rest by simp,
        List.take_append_of_le_length (by rw [List.length_append, h.length]; exact hindex)]
    rw [parseBits, if_neg (by omega), hwindow, hvalue]
    dsimp only
    rw [if_neg (by decide), if_neg (by omega), List.take_left' h.length, List.drop_left' h.length]
    cases h <;> rfl
  obtain ⟨b', hcode', hparses, hleaves⟩ := parseCode_spec hgood hwf
  rw [havail, hparse] at hcode' hparses hleaves
  refine ⟨b', hcode', hparses, fun hhit => hleaves ?_⟩
  cases h with
  | eol => rfl
  | fill => cases hhit

/-! ## What the pen draws -/

/-- A make-up code goes a part of the way. -/
theorem Pen.to_to {a q : Nat} {white : Bool} (ha : p.pos ≤ a) (hq : a ≤ q) :
    (p.to a p.white).to q white = p.to q white := by
  have hblack : ∀ i, ((p.to a p.white).black i || (!p.white && decide (a ≤ i ∧ i < q)))
      = (p.to q white).black i := by
    intro i
    show ((p.black i || (!p.white && decide (p.pos ≤ i ∧ i < a))) || _)
      = (p.black i || (!p.white && decide (p.pos ≤ i ∧ i < q)))
    rw [Bool.or_assoc, ← Bool.and_or_distrib_left, ← Bool.decide_or]
    congr 2
    exact decide_eq_decide.mpr (by omega)
  exact congrArg (Pen.mk q false white) (funext hblack)

/-- The pen has drawn the row up to `a`, and goes on in the colour `c`. -/
structure Drawn (row : Nat → Bool) (n : Nat) (c : Bool) (a : Nat) (p : Pen) : Prop where
  pos : p.pos = a
  le : a ≤ n
  white : p.white = !c
  ahead : p.Ahead
  black : ∀ i < a, p.black i = row i

theorem Drawn.to {c : Bool} {a q : Nat} (white : Bool) (h : Drawn row n c a p) (haq : a ≤ q)
    (hq : q ≤ n) (hrow : ∀ i, a ≤ i → i < q → row i = c) :
    Drawn row n (!white) q (p.to q white) := by
  refine ⟨rfl, hq, (Bool.not_not white).symm, Pen.ahead_to h.ahead (h.pos ▸ haq), fun i hi => ?_⟩
  show (p.black i || (!p.white && decide (p.pos ≤ i ∧ i < q))) = row i
  rw [h.pos, h.white, Bool.not_not]
  rcases Nat.lt_or_ge i a with hlt | hge
  · rw [decide_eq_false (by omega), Bool.and_false, Bool.or_false, h.black i hlt]
  · rw [decide_eq_true ⟨hge, hi⟩, Bool.and_true, h.ahead i (h.pos ▸ hge), Bool.false_or,
      hrow i hge hi]

/-- A run is drawn code by code: `R` is kept up to its final code, which leads to `R'`. -/
theorem run_induction {R R' : Pen → List Bool → Prop}
    (hmakeup : ∀ {p rest v}, v ∈ runValues → 63 < v → 13 ≤ rest.length → p.pos + v ≤ w →
      R p ((runCode (!p.white) v).word ++ rest) → R (p.to (p.pos + v) p.white) rest)
    (hfinal : ∀ {p rest v}, v ∈ runValues → v ≤ 63 → 13 ≤ rest.length → p.pos + v ≤ w →
      R p ((runCode (!p.white) v).word ++ rest) → R' (p.to (p.pos + v) (!p.white)) rest)
    {r : Nat} (hrest : 13 ≤ rest.length) (hle : p.pos + r ≤ w)
    (h : R p (runWord (!p.white) r ++ rest)) : R' (p.to (p.pos + r) (!p.white)) rest := by
  have hlong : ∀ l : List Bool, 13 ≤ (l ++ rest).length := fun l => by
    rw [List.length_append]
    omega
  induction r using runParts.induct generalizing p with
  | case1 r hr ih =>
    rw [runWord_of_ge hr, List.append_assoc] at h
    have h := hmakeup (by decide) (by decide) (hlong _) (by omega) h
    have hend : (p.to (p.pos + 2560) p.white).pos + (r - 2560) = p.pos + r := by
      show p.pos + 2560 + (r - 2560) = p.pos + r
      omega
    have h := ih (hend.trans_le hle) h
    rwa [hend, Pen.to_to (by omega) (by omega)] at h
  | case2 r hr hr' =>
    rw [runWord_of_makeup hr' (Nat.not_le.mp hr), List.append_assoc] at h
    have h := hmakeup (mem_runValues_makeup (by omega) (by omega)) (by omega) (hlong _) (by omega) h
    have hend : (p.to (p.pos + r / 64 * 64) p.white).pos + r % 64 = p.pos + r := by
      show p.pos + r / 64 * 64 + r % 64 = p.pos + r
      omega
    have h := hfinal (mem_runValues_final (Nat.mod_lt _ (by decide))) (by omega) hrest
      (hend.trans_le hle) h
    rwa [hend, Pen.to_to (by omega) (by omega)] at h
  | case3 r hr hr' =>
    rw [runWord_of_final (Nat.not_le.mp hr')] at h
    exact hfinal (mem_runValues_final (Nat.not_le.mp hr')) (by omega) hrest hle h

/-! ## One dimension -/

/-- The decoder `g` has made the row with the result `res`, and `rest` is left. -/
def MadeRow (g : DecInst) (row : Nat → Bool) (w : Nat) (rest : List Bool) (ret : Ret)
    (res : Except Fault (Ret × DecInst × List UInt8)) : Prop :=
  ∃ gb pos white st a prior invalid out, res = .ok (ret, { g with
      gb := gb, pixelPos := pos, white := white, state2d := st, a0 := a, priorP := prior,
      refRowInvalid := invalid }, out) ∧
    Parses g.gb gb rest ∧ (ret.hitEol = true → 0 < gb.cacheCnt) ∧
    prior.length = g.priorP.length ∧ (g.inputFormat ≠ .mmr → invalid = false) ∧
    (w + 7) / 8 < out.length ∧ ∀ i < w, pix out i = row i

/-- A decoder of a one-dimensional row with the result `res`: it is `g` but for what the codes
change, it has the pen at `p`, and `bits` are to come. -/
def Left1d (w : Nat) (g : DecInst) (res : Except Fault (Ret × DecInst × List UInt8)) (p : Pen)
    (bits : List Bool) : Prop :=
  ∃ rounds gb pos white out,
    decodeRuns rounds { g with gb := gb, pixelPos := pos, white := white } out = res ∧
    bits.length < rounds ∧ Parses g.gb gb bits ∧
    At1d w p { g with gb := gb, pixelPos := pos, white := white } out

variable {res : Except Fault (Ret × DecInst × List UInt8)}

theorem Parses.trans {b₁ b₂ b₃ : Gb} {bits bits' : List Bool} (h : Parses b₁ b₂ bits)
    (h' : Parses b₂ b₃ bits') : Parses b₁ b₃ bits' :=
  ⟨h'.avail, h'.wf, h'.numZeroes.trans h.numZeroes, h'.suffix.trans h.suffix⟩

theorem Left1d.code (hw : g.rowLen = w) (hlt : w < 2 ^ 31) (hv : v ∈ runValues)
    (hrest : 13 ≤ rest.length) (hle : p.pos + v ≤ w)
    (h : Left1d w g res p ((runCode (!p.white) v).word ++ rest)) :
    Left1d w g res (p.to (p.pos + v) (if v ≤ 63 then !p.white else p.white)) rest := by
  obtain ⟨rounds, gb, pos, white, out, hres, hrounds, hparses, hat⟩ := h
  obtain ⟨rounds, rfl⟩ := Nat.exists_eq_add_of_lt (Nat.zero_lt_of_lt hrounds)
  rw [Nat.zero_add] at hres hrounds
  have hwhite : white = p.white := hat.white
  subst hwhite
  have hhas := runTable_has p.white hv
  have hword : 0 < (runCode (!p.white) v).word.length := hhas.1.trans_eq (natBits_length _ _).symm
  obtain ⟨b, hparse, hbits⟩ :=
    hhas.parseCode (runTable_good _) hparses.wf hparses.avail hrest
  obtain ⟨out', hrun, -⟩ := setRunIf_returns
    { g with gb := b, pixelPos := pos, white := p.white } pos v
    (fun _ => (show pos = _ from hat.pos) ▸ Int.natCast_nonneg _)
    (show (g.rowLen + 7) / 8 < out.length by rw [hw]; exact hat.shows.1)
  obtain ⟨⟨g', out'⟩, hcode⟩ : ∃ r,
      decodeRun1d { g with gb := b, pixelPos := pos, white := p.white } out v = .ok r :=
    ⟨_, bind_eq_ok.mpr ⟨out', hrun, rfl⟩⟩
  obtain ⟨hat', hg'⟩ := decodeRun1d_at (p := p)
    (g := { g with gb := b, pixelPos := pos, white := p.white }) hw
    ⟨hat.pos, rfl, hat.ahead, hat.shows⟩ (by omega) hcode
  dsimp only at hat' hg'
  rw [decodeRuns] at hres
  dsimp only at hres
  rw [hparse, ok_bind] at hres
  dsimp only at hres
  rw [hcode, ok_bind] at hres
  dsimp only at hres
  rw [hg'] at hat' hres
  exact ⟨rounds, _, _, _, out', hres, by rw [List.length_append] at hrounds; omega,
    hparses.trans hbits, hat'⟩

/-- The runs of a row take the pen over the row. -/
theorem Left1d.runs {a : Nat} {c : Bool} {rs : List Nat} (hrs : Runs row w c a rs)
    (hw : g.rowLen = w) (hlt : w < 2 ^ 31) (hrest : 13 ≤ rest.length) (hdrawn : Drawn row w c a p)
    (h : Left1d w g res p (runsWord c rs ++ rest)) :
    ∃ p' c', Drawn row w c' w p' ∧ Left1d w g res p' rest := by
  induction hrs generalizing p with
  | @done c a hdone =>
    obtain rfl : a = w := Nat.le_antisymm hdrawn.le hdone
    exact ⟨p, c, hdrawn, h⟩
  | @step c a rs _ _ ih =>
    have hpos := hdrawn.pos
    have hnext : a ≤ next row c w a := le_next hdrawn.le
    have hend : p.pos + (next row c w a - a) = next row c w a := by omega
    have hcolour : (!p.white) = c := by rw [hdrawn.white, Bool.not_not]
    have hdrawn' := hdrawn.to c hnext next_le fun i hi hi' => eq_of_lt_next hi hi'
    rw [runsWord, List.append_assoc] at h
    have h : Left1d w g res (p.to (p.pos + (next row c w a - a)) (!p.white))
        (runsWord (!c) rs ++ rest) :=
      run_induction (R := Left1d w g res)
        (fun hv hmore hrest hle h => by
          simpa only [if_neg (Nat.not_le.mpr hmore)] using Left1d.code hw hlt hv hrest hle h)
        (fun hv hless hrest hle h => by
          simpa only [if_pos hless] using Left1d.code hw hlt hv hrest hle h)
        (by rw [List.length_append]; omega) (hend.trans_le next_le) (by rw [hcolour]; exact h)
    rw [hend, hcolour] at h
    exact ih hdrawn' h

/-- An EOL, or fill, behind the row ends it. -/
theorem Left1d.ends {c : Bool} (hend : EndWord word stop ret) (hw : g.rowLen = w) (hpos : 0 < w)
    (hdrawn : Drawn row w c w p) (hrest : rest ≠ []) (h : Left1d w g res p (word ++ rest)) :
    MadeRow g row w rest ret res := by
  obtain ⟨rounds, gb, pos, white, out, hres, hrounds, hparses, hat⟩ := h
  obtain ⟨rounds, rfl⟩ := Nat.exists_eq_add_of_lt (Nat.zero_lt_of_lt hrounds)
  obtain ⟨b, hparse, hbits, hleaves⟩ := hend.parseCode _ (.inr rfl) hparses.wf hparses.avail hrest
  have hpos' : pos = w := (show pos = _ from hat.pos).trans (congrArg _ hdrawn.pos)
  refine ⟨b, pos, white, g.state2d, g.a0, g.priorP, false, out, hres.symm.trans ?_,
    hparses.trans hbits, hleaves, rfl, fun _ => rfl, hat.shows.1,
    fun i hi => (hat.shows.2 i hi).trans (hdrawn.black i hi)⟩
  rw [Nat.zero_add, decodeRuns]
  dsimp only
  rw [hparse, ok_bind]
  cases hend with
  | eol =>
    dsimp only
    rw [unusual1d, unusual1d.atEol, if_neg (by show ¬ pos = 0; omega),
      if_pos (by show pos = g.rowLen; omega)]
  | fill =>
    dsimp only
    rw [unusual1d, unusual1d.atEol, if_neg (by show ¬ pos = 0; omega),
      if_pos (by show pos = g.rowLen; omega)]

/-- A decoder at the start of a row of `w` pixels. -/
structure StartsRow (w : Nat) (g : DecInst) : Prop where
  rowLen : g.rowLen = w
  bytes : g.bytesInRow = (w + 7) / 8
  prior : (w + 7) / 8 < g.priorP.length
  pixelPos : g.pixelPos = 0
  white : g.white = true
  state2d : g.state2d = .normal2d
  a0 : g.a0 = -1
  gb : g.gb.Wf

theorem drawn_start : Drawn row w false 0 .atStart :=
  ⟨rfl, Nat.zero_le w, rfl, fun _ _ => rfl, fun _ hi => absurd hi (Nat.not_lt_zero _)⟩

/-- **A one-dimensional row is made of its runs**, up to what ends it. -/
theorem decodeRow1d_made {d : DecInst} {rs : List Nat} (hend : EndWord word stop ret)
    (hd : StartsRow w d) (hpos : 0 < w) (hw : w < 2 ^ 31) (hout : (w + 7) / 8 < out.length)
    (hrs : Runs row w false 0 rs) (havail : d.gb.avail = runsWord false rs ++ (word ++ rest))
    (hrest : rest ≠ []) : MadeRow d row w rest ret (decodeRow1d d out) := by
  have h : Left1d w { d with refRowInvalid := true } (decodeRow1d d out) .atStart
      (runsWord false rs ++ (word ++ rest)) := by
    rw [decodeRow1d, if_pos hd.pixelPos]
    exact ⟨_, d.gb, d.pixelPos, d.white, _, rfl, havail ▸ Gb.avail_lt_rounds d.gb,
      ⟨havail, hd.gb, rfl, List.suffix_refl _⟩, hd.pixelPos, hd.white, fun _ _ => rfl,
      whiteRow_shows hd.bytes hout (fun _ _ => rfl) rfl⟩
  obtain ⟨p, c, hdrawn, h⟩ :=
    h.runs hrs (by exact hd.rowLen) hw (hend.long hrest) drawn_start
  have hmade := h.ends hend (by exact hd.rowLen) hpos hdrawn hrest
  exact hmade

/-! ## Two dimensions -/

/-- The state after a code. -/
def State2d.after (value : Nat) : State2d → State2d
  | .normal2d => if value = 8 then .horiz1st else .normal2d
  | .horiz1st => if 63 < value then .horiz1st else .horiz2nd
  | .horiz2nd => if 63 < value then .horiz2nd else .normal2d

/-- What the pen can draw, the decoder takes. -/
theorem decodeCode2d_goes {value : Nat} {good : Bool} {s' : Decoding} (hat : At2d w ref p s)
    (hw : w < 2 ^ 31) (hdraw : p.drawAll ref w (itemsOf s.g.state2d value) = some p')
    (hp' : p'.pos ≤ w) (h : decodeCode2d s value = .ok (good, s')) :
    good = true ∧ s'.g.state2d = s.g.state2d.after value := by
  cases hstate : s.g.state2d with
  | normal2d =>
    rw [decodeCode2d, hstate] at h
    dsimp only at h
    rw [normalCode] at h
    rw [hstate, itemsOf] at hdraw
    dsimp only [State2d.after] at hdraw ⊢
    by_cases hhoriz : value = 8
    · rw [if_pos hhoriz] at h
      cases h
      exact ⟨rfl, (if_pos hhoriz).symm⟩
    rw [if_neg hhoriz] at h hdraw ⊢
    obtain ⟨s₁, hfind, h⟩ := bind_eq_ok.mp h
    obtain ⟨hb1, hg₁, -⟩ := findB1_at hat hstate hfind
    have hstate₁ : s₁.g.state2d = .normal2d := by rw [hg₁]; exact hstate
    by_cases hvertical : value ≤ 6
    · rw [if_pos hvertical] at h hdraw
      rw [Pen.drawAll_one, Pen.draw] at hdraw
      split_ifs at hdraw with hinside
      rw [verticalMode] at h
      obtain ⟨out', -, h⟩ := bind_eq_ok.mp h
      have hrow := hat.row.rowLen
      rw [if_neg (by
        rw [hb1, hg₁]
        show ¬ (_ < (p.pos : Int) ∨ (s.g.rowLen : Int) < _)
        omega)] at h
      cases h
      exact ⟨rfl, hstate₁⟩
    · rw [if_neg hvertical] at h
      obtain ⟨s₂, hpass, h⟩ := bind_eq_ok.mp h
      cases h
      rw [passMode] at hpass
      obtain ⟨b2, -, hpass⟩ := bind_eq_ok.mp hpass
      obtain ⟨out', -, hpass⟩ := bind_eq_ok.mp hpass
      cases hpass
      exact ⟨rfl, hstate₁⟩
  | horiz1st =>
    rw [decodeCode2d, hstate] at h
    dsimp only at h
    obtain ⟨g₁, hg₁⟩ : ∃ g₁, (if s.g.a0 < 0 then { s.g with a0 := 0 } else s.g) = g₁ := ⟨_, rfl⟩
    have hstate₁ : g₁.state2d = .horiz1st := by rw [← hg₁]; split <;> exact hstate
    rw [horizCode_eq hg₁, hstate₁] at h
    obtain ⟨out', -, h⟩ := bind_eq_ok.mp h
    dsimp only [State2d.after]
    split_ifs at h ⊢ <;> cases h <;> exact ⟨rfl, rfl⟩
  | horiz2nd =>
    rw [decodeCode2d, hstate] at h
    dsimp only at h
    obtain ⟨g₁, hg₁⟩ : ∃ g₁, (if s.g.a0 < 0 then { s.g with a0 := 0 } else s.g) = g₁ := ⟨_, rfl⟩
    have hstate₁ : g₁.state2d = .horiz2nd := by rw [← hg₁]; split <;> exact hstate
    have ha0 : g₁.a0 = p.pos := by rw [← hat.row.a0_eq, ← hg₁]; split <;> rfl
    have hrow : g₁.rowLen = w := by rw [← hat.row.rowLen, ← hg₁]; split <;> rfl
    rw [horizCode_eq hg₁, hstate₁] at h
    obtain ⟨out', -, h⟩ := bind_eq_ok.mp h
    rw [hstate] at hdraw
    obtain rfl := Option.some.inj (Pen.drawAll_one.symm.trans hdraw)
    have hend : int32 (g₁.a0 + value) ≤ g₁.rowLen := by
      have hend : p.pos + value ≤ w := hp'
      rw [ha0, hrow, int32_self (by omega) (by omega)]
      omega
    dsimp only [State2d.after]
    split_ifs at h ⊢ <;> cases h
    · exact ⟨rfl, rfl⟩
    · exact ⟨decide_eq_true hend, rfl⟩

/-- A decoder of a two-dimensional row with the result `res`: it is `g` but for what the codes
change, it has the pen at `p`, and `bits` are to come. -/
def Left2d (w : Nat) (ref : Nat → Bool) (g : DecInst)
    (res : Except Fault (Ret × DecInst × List UInt8)) (st : State2d) (p : Pen)
    (bits : List Bool) : Prop :=
  ∃ rounds s, decodeModes rounds s = res ∧ bits.length < rounds ∧ s.Sound w ∧ At2d w ref p s ∧
    s.g.state2d = st ∧ Parses g.gb s.g.gb bits ∧
    ∃ a white st gb, s.g = { g with a0 := a, white := white, state2d := st, gb := gb }

/-- The table for the next code. -/
def codeTable (st : State2d) (white : Bool) : HuffTable :=
  match st with
  | .normal2d => vertTable
  | _ => runTable white

theorem Left2d.code (te : HuffT) (st : State2d) (hw : w < 2 ^ 31)
    (hhas : (codeTable st p.white).Has te v) (hrest : 13 ≤ rest.length)
    (hgo : st = .normal2d → p.start = true ∨ p.pos < w)
    (hdraw : p.drawAll ref w (itemsOf st v) = some p') (hp' : p'.pos ≤ w)
    (h : Left2d w ref g res st p (te.word ++ rest)) : Left2d w ref g res (st.after v) p' rest := by
  obtain ⟨rounds, s, hres, hrounds, hsound, hat, rfl, hparses, hsame⟩ := h
  obtain ⟨rounds, rfl⟩ := Nat.exists_eq_add_of_lt (Nat.zero_lt_of_lt hrounds)
  rw [Nat.zero_add] at hres hrounds
  have htbl : nextTable s.g = .inr (codeTable s.g.state2d p.white) := by
    have ha0 := hat.row.a0
    have hrow := hat.row.rowLen
    rw [nextTable]
    cases hst : s.g.state2d with
    | normal2d =>
      show (if (s.g.rowLen : Int) ≤ s.g.a0 ∧ s.g.inputFormat = .mmr then _ else Sum.inr vertTable)
        = Sum.inr vertTable
      refine if_neg fun hend => ?_
      rcases hgo hst with hstart | hlt
      · rw [hstart, if_pos rfl] at ha0
        omega
      · split at ha0 <;> omega
    | horiz1st => exact congrArg (fun white => Sum.inr (runTable white)) hat.row.white
    | horiz2nd => exact congrArg (fun white => Sum.inr (runTable white)) hat.row.white
  have hword : 0 < te.word.length := hhas.1.trans_eq (natBits_length _ _).symm
  obtain ⟨b, hparse, hbits⟩ :=
    hhas.parseCode (nextTable_good htbl) hparses.wf hparses.avail hrest
  obtain ⟨s₁, hs₁⟩ : ∃ s₁ : Decoding, s₁ = { s with g := { s.g with gb := b } } := ⟨_, rfl⟩
  have hstate₁ : s₁.g.state2d = s.g.state2d := by rw [hs₁]
  have hsound₁ : s₁.Sound w := by
    rw [hs₁]
    exact ⟨hsound.g.withGb hbits.wf, hsound.slack, hsound.out, hsound.b1⟩
  have hat₁ : At2d w ref p s₁ := by
    rw [hs₁]
    exact ⟨⟨hat.row.rowLen, hat.row.a0, hat.row.start, hat.row.white, hat.row.ahead,
      hat.row.inside, hat.row.above⟩, hat.shows, hat.b1⟩
  have hinside₁ : s₁.g.Inside := by
    intro hnormal
    have ha0 := hat₁.row.a0
    have hrow := hat₁.row.rowLen
    have hin := hat₁.row.inside hnormal
    split at ha0 <;> omega
  obtain ⟨⟨good, s'⟩, hcode, hdecodes⟩ := decodeCode2d_sound hsound₁ hinside₁ v
  rw [← hstate₁] at hdraw ⊢
  obtain ⟨rfl, hstate'⟩ := decodeCode2d_goes hat₁ hw hdraw hp' hcode
  obtain ⟨⟨a, white, st, hg'⟩, -, hgood⟩ := decodeCode2d_at hat₁ hw
    (fun q hq => by obtain rfl := Option.some.inj (hdraw.symm.trans hq); omega) hcode
  obtain ⟨q, hq, hat'⟩ := hgood rfl
  obtain rfl := Option.some.inj (hdraw.symm.trans hq)
  have hgb : s'.g.gb = b := hdecodes.gb.trans (by rw [hs₁])
  rw [decodeModes, htbl] at hres
  dsimp only at hres
  rw [hparse, ok_bind, ← hs₁] at hres
  dsimp only at hres
  rw [hcode, ok_bind] at hres
  dsimp only at hres
  rw [if_pos rfl] at hres
  refine ⟨rounds, s', hres, ?_, hdecodes.sound, hat', hstate',
    hgb ▸ hparses.trans hbits, ?_⟩
  · rw [List.length_append] at hrounds
    omega
  · obtain ⟨a₀, white₀, st₀, gb₀, hg⟩ := hsame
    exact ⟨a, white, st, b, by rw [hg', hs₁, hg]⟩

theorem vertTable_has {k : Nat} (hk : k < 7) : vertTable.Has vertTbl[k]! k := by
  have hall : ∀ k < 7, vertTable.Has vertTbl[k]! k := by decide +kernel
  exact hall k hk

/-- The runs of horizontal mode, each in the state `st`. -/
theorem Left2d.run {r : Nat} (st : State2d) (hst : st ≠ .normal2d) (hw : w < 2 ^ 31)
    (hrest : 13 ≤ rest.length) (hle : p.pos + r ≤ w)
    (h : Left2d w ref g res st p (runWord (!p.white) r ++ rest)) :
    Left2d w ref g res (st.after 0) (p.to (p.pos + r) (!p.white)) rest := by
  have hcode : ∀ {p : Pen} {rest v}, v ∈ runValues → 13 ≤ rest.length → p.pos + v ≤ w →
      Left2d w ref g res st p ((runCode (!p.white) v).word ++ rest) →
      Left2d w ref g res (st.after v) (p.to (p.pos + v) (if v ≤ 63 then !p.white else p.white))
        rest := by
    intro p rest v hv hrest hle h
    have hhas : (codeTable st p.white).Has (runCode (!p.white) v) v := by
      cases st with
      | normal2d => exact absurd rfl hst
      | horiz1st => exact runTable_has _ hv
      | horiz2nd => exact runTable_has _ hv
    refine h.code _ _ hw hhas hrest (fun hnormal => absurd hnormal hst) ?_ hle
    cases st with
    | normal2d => exact absurd rfl hst
    | horiz1st => exact Pen.drawAll_one
    | horiz2nd => exact Pen.drawAll_one
  have hafter : (∀ v, 63 < v → st.after v = st) ∧ ∀ v ≤ 63, st.after v = st.after 0 := by
    cases st with
    | normal2d => exact absurd rfl hst
    | horiz1st => exact ⟨fun v hv => if_pos hv, fun v hv => if_neg (Nat.not_lt.mpr hv)⟩
    | horiz2nd => exact ⟨fun v hv => if_pos hv, fun v hv => if_neg (Nat.not_lt.mpr hv)⟩
  refine run_induction (R := Left2d w ref g res st) (fun hv hmore hrest hle h => ?_)
    (fun hv hless hrest hle h => ?_) hrest hle h
  · simpa only [if_neg (Nat.not_le.mpr hmore), hafter.1 _ hmore] using hcode hv hrest hle h
  · simpa only [if_pos hless, hafter.2 _ hless] using hcode hv hrest hle h

/-- **The code of a mode** takes the pen where the mode leads. -/
theorem Left2d.mode (hw : w < 2 ^ 31) (hrest : 13 ≤ rest.length)
    (hgo : p.start = true ∨ p.pos < w) (hdrawn : Drawn row w (!p.white) p.pos p)
    (h : Left2d w ref g res .normal2d p
      (modeWord (!p.white) (modeAt row ref w p.start (!p.white) p.pos).1 ++ rest)) :
    ∃ p', p'.start = false ∧
      Drawn row w (modeAt row ref w p.start (!p.white) p.pos).2.2
        (modeAt row ref w p.start (!p.white) p.pos).2.1 p' ∧
      Left2d w ref g res .normal2d p' rest := by
  obtain ⟨a, ha⟩ : ∃ a, RowCoding.a1 row w (!p.white) p.pos = a := ⟨_, rfl⟩
  obtain ⟨b, hb⟩ : ∃ b, Scan.b2 ref w (!p.white) (p.b1 ref w) = b := ⟨_, rfl⟩
  have hcoded : ∀ i, p.pos ≤ i → i < a → row i = !p.white :=
    fun i hi hi' => eq_of_lt_next hi (hi'.trans_eq ha.symm)
  have hle : p.pos ≤ a := ha ▸ le_a1 hdrawn.le
  have hle₁ : a ≤ w := ha ▸ a1_le
  have hpassCode : vertTable.Has ⟨1, 4⟩ 7 := by decide +kernel
  have hhorizCode : vertTable.Has ⟨1, 3⟩ 8 := by decide +kernel
  rcases Nat.lt_or_ge b a with hpass | hge
  · rw [modeAt_pass (hb.trans_lt (hpass.trans_eq ha.symm))] at h ⊢
    have hle : p.pos ≤ b := hb ▸ (le_b1 hdrawn.le).trans (le_b2 b1_le)
    have hle₁ : b ≤ w := hb ▸ b2_le
    refine ⟨p.to b p.white, rfl, ?_, ?_⟩
    · show Drawn row w (!p.white) (Scan.b2 ref w (!p.white) (p.b1 ref w)) _
      rw [hb]
      exact hdrawn.to _ hle hle₁ fun i hi hi' => hcoded i hi (hi'.trans hpass)
    · exact h.code ⟨1, 4⟩ .normal2d hw hpassCode hrest (fun _ => hgo)
        (hb ▸ Pen.drawAll_one) hle₁
  have hge := hb.trans_ge (hge.trans_eq' ha.symm)
  by_cases hd : -3 ≤ (a : Int) - p.b1 ref w ∧ (a : Int) - p.b1 ref w ≤ 3
  · rw [modeAt_vertical hge (by rw [ha]; exact hd), ha] at h ⊢
    refine ⟨p.to a (!p.white), rfl, hdrawn.to _ hle hle₁ hcoded, ?_⟩
    obtain ⟨k, hk⟩ := Int.eq_ofNat_of_zero_le (show 0 ≤ (a : Int) - p.b1 ref w + 3 by omega)
    have hk7 : k < 7 := by omega
    have hword : modeWord (!p.white) (.vertical ((a : Int) - p.b1 ref w)) = (vertTbl[k]!).word := by
      rw [modeWord, hk, Int.toNat_natCast]
    have h : Left2d w ref g res .normal2d p ((vertTbl[k]!).word ++ rest) := hword ▸ h
    have hdraw : p.drawAll ref w (itemsOf .normal2d k) = some (p.to a (!p.white)) := by
      rw [itemsOf, if_neg (by omega), if_pos (by omega), Pen.drawAll_one, Pen.draw,
        if_pos (by omega)]
      congr 2
      omega
    have hafter : State2d.after k .normal2d = .normal2d := if_neg (by omega)
    exact hafter ▸ h.code _ .normal2d hw (vertTable_has hk7) hrest (fun _ => hgo) hdraw hle₁
  · obtain ⟨a', ha'⟩ : ∃ a', a2 row w (!p.white) a = a' := ⟨_, rfl⟩
    have hle₂ : a ≤ a' := ha' ▸ le_a2 hle₁
    have hle₃ : a' ≤ w := ha' ▸ next_le
    rw [modeAt_horizontal hge (by rw [ha]; exact hd), ha, ha'] at h ⊢
    rw [modeWord, List.append_assoc, List.append_assoc] at h
    have h := h.code ⟨1, 3⟩ .normal2d hw hhorizCode
      (by rw [List.length_append, List.length_append]; omega) (fun _ => hgo) rfl hdrawn.le
    have h := h.run .horiz1st (by rintro ⟨⟩) hw (by rw [List.length_append]; omega)
      (by omega)
    rw [Nat.add_sub_cancel' hle] at h
    have hdrawn₁ := hdrawn.to (!p.white) hle hle₁ hcoded
    have h := h.run .horiz2nd (by rintro ⟨⟩) hw hrest (by show a + _ ≤ w; omega)
    rw [show (p.to a (!p.white)).pos + (a' - a) = a' from Nat.add_sub_cancel' hle₂] at h
    refine ⟨_, rfl, ?_, h⟩
    have hdrawn₂ := hdrawn₁.to (!!p.white) hle₂ hle₃ fun i hi hi' => ?_
    · rwa [Bool.not_not] at hdrawn₂
    · rcases Nat.eq_or_lt_of_le hi with rfl | hlt
      · rw [← ha]
        exact next_eq_not (ha.trans_lt (hi'.trans_le hle₃))
      · exact (eq_of_lt_next hlt (hi'.trans_eq ha'.symm)).trans rfl

/-- The modes of a row take the pen over the row. -/
theorem Left2d.modes {start c : Bool} {a : Nat} {ms : List (Bool × Mode)}
    (hms : Modes row ref w start c a ms) (hw : w < 2 ^ 31) (hrest : 13 ≤ rest.length)
    (hstart : p.start = start) (hdrawn : Drawn row w c a p)
    (h : Left2d w ref g res .normal2d p (modesWord ms ++ rest)) :
    ∃ p' c', p'.start = false ∧ Drawn row w c' w p' ∧ Left2d w ref g res .normal2d p' rest := by
  induction hms generalizing p with
  | @done c a hdone =>
    obtain rfl : a = w := Nat.le_antisymm hdrawn.le hdone
    exact ⟨p, c, hstart, hdrawn, h⟩
  | @step start c a ms hgo _ ih =>
    obtain rfl := hdrawn.pos
    obtain rfl := hstart
    obtain rfl : c = !p.white := by rw [hdrawn.white, Bool.not_not]
    rw [modesWord, List.flatMap_cons, List.append_assoc] at h
    obtain ⟨p', hstart', hdrawn', h⟩ :=
      h.mode hw (by rw [List.length_append]; omega) hgo hdrawn
    exact ih hstart' hdrawn' h

/-- A row of MMR data ends with its last mode. -/
theorem Left2d.complete {c : Bool} (hfmt : g.inputFormat = .mmr) (hstart : p.start = false)
    (hdrawn : Drawn row w c w p) (h : Left2d w ref g res .normal2d p rest) :
    MadeRow g row w rest ⟨true, false, false, false⟩ res := by
  obtain ⟨rounds, s, hres, hrounds, hsound, hat, hst, hparses, a, white, st, gb, hg⟩ := h
  obtain ⟨rounds, rfl⟩ := Nat.exists_eq_add_of_lt (Nat.zero_lt_of_lt hrounds)
  have ha0 : s.g.a0 = s.g.rowLen := by
    rw [hat.row.a0, hstart, if_neg Bool.false_ne_true, hdrawn.pos, hat.row.rowLen]
  have hformat : s.g.inputFormat = .mmr := by rw [hg]; exact hfmt
  have htbl : nextTable s.g = .inl ⟨true, false, false, false⟩ := by
    rw [nextTable, hst]
    show (if (s.g.rowLen : Int) ≤ s.g.a0 ∧ s.g.inputFormat = .mmr then _ else _) = _
    rw [if_pos ⟨ha0.ge, hformat⟩, if_pos ha0]
  rw [Nat.zero_add, decodeModes, htbl] at hres
  refine ⟨gb, g.pixelPos, white, st, a, g.priorP, g.refRowInvalid, s.out, hg ▸ hres.symm, ?_,
    (by rintro ⟨⟩), rfl, fun hne => absurd hfmt hne, hat.shows.1,
    fun i hi => (hat.shows.2 i hi).trans (hdrawn.black i hi)⟩
  rwa [hg] at hparses

/-- An EOL, or fill, behind the row ends it in MR data. -/
theorem Left2d.ends {c : Bool} (hend : EndWord word stop ret) (hfmt : g.inputFormat ≠ .mmr)
    (hvalid : g.refRowInvalid = false) (hstart : p.start = false) (hdrawn : Drawn row w c w p)
    (hrest : rest ≠ []) (h : Left2d w ref g res .normal2d p (word ++ rest)) :
    MadeRow g row w rest ret res := by
  obtain ⟨rounds, s, hres, hrounds, hsound, hat, hst, hparses, a, white, st, gb, hg⟩ := h
  obtain ⟨rounds, rfl⟩ := Nat.exists_eq_add_of_lt (Nat.zero_lt_of_lt hrounds)
  have ha0 : s.g.a0 = s.g.rowLen := by
    rw [hat.row.a0, hstart, if_neg Bool.false_ne_true, hdrawn.pos, hat.row.rowLen]
  have hformat : s.g.inputFormat ≠ .mmr := by rw [hg]; exact hfmt
  have hinvalid : ¬ s.g.refRowInvalid = true := by
    rw [hg, Bool.not_eq_true]
    exact hvalid
  have htbl : nextTable s.g = .inr vertTable := by
    rw [nextTable, hst]
    exact if_neg fun hend => hformat hend.2
  obtain ⟨b, hparse, hbits, hleaves⟩ :=
    hend.parseCode true (.inl rfl) hparses.wf hparses.avail hrest
  rw [Nat.zero_add, decodeModes, htbl] at hres
  dsimp only at hres
  rw [hparse, ok_bind] at hres
  refine ⟨b, g.pixelPos, white, .normal2d, a, g.priorP, g.refRowInvalid, s.out, ?_,
    hparses.trans hbits, hleaves, rfl, fun _ => hvalid, hat.shows.1,
    fun i hi => (hat.shows.2 i hi).trans (hdrawn.black i hi)⟩
  cases hend with
  | eol =>
    dsimp only at hres
    rw [unusual2d, atEol2d_of_ne (by exact hformat), if_pos ⟨by exact hinvalid, ha0⟩] at hres
    rw [← hres, hg]
  | fill =>
    dsimp only at hres
    rw [unusual2d, atEol2d_of_ne (by exact hformat), if_pos ⟨by exact hinvalid, ha0⟩] at hres
    rw [← hres, hg]

theorem left2d_start {d : DecInst} (hd : StartsRow w d) (hout : (w + 7) / 8 < out.length)
    (habove : ∀ i < w, pix d.priorP i = ref i) :
    Left2d w ref { d with priorP := d.priorP.set d.bytesInRow 0x55 } (decodeRow2d d out) .normal2d
      .atStart d.gb.avail := by
  have hlt : d.bytesInRow < d.priorP.length := by
    rw [hd.bytes]
    exact hd.prior
  have hslack : Slack (d.priorP.set d.bytesInRow 0x55) w := by
    constructor
    · rw [List.length_set]
      exact hd.prior
    · rw [← hd.bytes, List.getD_eq_getElem _ _ (by rw [List.length_set]; exact hlt),
        List.getElem_set_self]
  have hwhite : ShowsPen w (whiteRow d out) .atStart :=
    whiteRow_shows hd.bytes hout (fun _ _ => rfl) rfl
  rw [decodeRow2d, if_pos (by rw [hd.a0]; decide), store_returns _ hlt, ok_bind]
  refine ⟨_, _, rfl, d.gb.avail_lt_rounds, ⟨⟨hd.gb, hd.rowLen, hd.bytes, hslack.1,
      fun _ => hslack, ?_⟩, hslack, hwhite.1, (by rintro ⟨⟩)⟩,
    ⟨⟨hd.rowLen, hd.a0, fun _ => rfl, hd.white, fun _ _ => rfl, fun _ => Nat.zero_le w, ?_⟩,
      hwhite, fun _ => (by rintro ⟨⟩)⟩, hd.state2d, ⟨rfl, hd.gb, rfl, List.suffix_refl _⟩, d.a0,
      d.white, d.state2d, d.gb, rfl⟩
  · rw [hd.pixelPos]
    rfl
  · intro i hi
    have hbytes := hd.bytes
    show pix (d.priorP.set d.bytesInRow 0x55) i = ref i
    rw [pix_set hlt, if_neg (by omega)]
    exact habove i hi

/-- A two-dimensional result, below the row with the sentinel. -/
theorem MadeRow.above {prior : List UInt8} (hprior : prior.length = g.priorP.length)
    (h : MadeRow { g with priorP := prior } row w rest ret res) : MadeRow g row w rest ret res := by
  obtain ⟨gb, pos, white, st, a, prior', invalid, out, hres, hparses, hleaves, hlen, hmade⟩ := h
  exact ⟨gb, pos, white, st, a, prior', invalid, out, hres, hparses, hleaves, hlen.trans hprior,
    hmade⟩

/-- **A two-dimensional row is made of its modes**: in MMR data it ends with them, -/
theorem decodeRow2d_mmr {d : DecInst} {ms : List (Bool × Mode)} (hd : StartsRow w d)
    (hw : w < 2 ^ 31) (hfmt : d.inputFormat = .mmr) (hout : (w + 7) / 8 < out.length)
    (habove : ∀ i < w, pix d.priorP i = ref i) (hms : Modes row ref w true false 0 ms)
    (havail : d.gb.avail = modesWord ms ++ rest) (hrest : 13 ≤ rest.length) :
    MadeRow d row w rest ⟨true, false, false, false⟩ (decodeRow2d d out) := by
  have h := left2d_start hd hout habove
  rw [havail] at h
  obtain ⟨p, c, hstart, hdrawn, h⟩ := h.modes hms hw hrest rfl drawn_start
  exact (h.complete (by exact hfmt) hstart hdrawn).above List.length_set

/-- in MR data, up to what ends it. -/
theorem decodeRow2d_mr {d : DecInst} {ms : List (Bool × Mode)} (hend : EndWord word stop ret)
    (hd : StartsRow w d) (hw : w < 2 ^ 31) (hfmt : d.inputFormat ≠ .mmr)
    (hvalid : d.refRowInvalid = false) (hout : (w + 7) / 8 < out.length)
    (habove : ∀ i < w, pix d.priorP i = ref i) (hms : Modes row ref w true false 0 ms)
    (havail : d.gb.avail = modesWord ms ++ (word ++ rest)) (hrest : rest ≠ []) :
    MadeRow d row w rest ret (decodeRow2d d out) := by
  have h := left2d_start hd hout habove
  rw [havail] at h
  obtain ⟨p, c, hstart, hdrawn, h⟩ := h.modes hms hw (hend.long hrest) rfl drawn_start
  exact (h.ends hend (by exact hfmt) (by exact hvalid) hstart hdrawn hrest).above List.length_set

end Hplip.Ip
