import Mathlib
import Hplip.Ip.FaxDraw

/-!
# Error concealment in the fax decoder (xfax.c)

A row whose codes are bad or do not end where the row ends comes out as a copy of the row above.
What makes this work in all calls is the invariant `InRow`: between calls the decoder is where the
pen is after the codes that have been read, and the output shows what is drawn.
-/

namespace Hplip.Ip

open Scan

variable {g : DecInst} {buf out : List UInt8} {w i : Nat} {p p' : Pen} {ref : Nat → Bool}
  {item : Item} {items : List Item}

/-! ## A call -/

def priorRow (g : DecInst) : List UInt8 := g.priorP.take g.bytesInRow

/-- What the codes mean that a call of `decode_row_2d` reads. -/
def row2dRead (g : DecInst) (out : List UInt8) : List Item :=
  if g.a0 < 0 then
    modesRead g.gb.rounds
      ⟨{ g with priorP := g.priorP.set g.bytesInRow 0x55 }, 0, true, whiteRow g out⟩
  else modesRead g.gb.rounds ⟨g, 0, true, out⟩

def stepRead (g : DecInst) (out : List UInt8) : List Item :=
  if g.flushingToEol then []
  else if g.twoDim then row2dRead g out
  else runsRead g.gb.rounds g.gb g.white

structure InRow (w : Nat) (p : Pen) (g : DecInst) (out : List UInt8) : Prop where
  rowLen : g.rowLen = w
  bytes : g.bytesInRow = (w + 7) / 8
  prior : (w + 7) / 8 < g.priorP.length
  format : g.inputFormat ≠ .mmr
  room : (w + 7) / 8 < out.length
  white : g.white = p.white
  ahead : p.Ahead
  one : g.twoDim = false → g.pixelPos = p.pos ∧
    (p.pos ≠ 0 → ShowsPen w out p ∧ g.refRowInvalid = true)
  two : g.twoDim = true → Row2d w (pix (priorRow g)) p g ∧ (p.start = false → ShowsPen w out p)

structure StepEnds (w : Nat) (p : Pen) (items : List Item) (g : DecInst)
    (r : Ret × DecInst × List UInt8) : Prop where
  same : SameRow g r.2.1
  prior : (w + 7) / 8 < r.2.1.priorP.length
  room : (w + 7) / 8 < r.2.2.length
  good : r.1.producedRow = true → r.1.inputError = false →
    (∃ p', p.drawAll (pix (priorRow g)) w items = some p' ∧ p'.pos = w ∧ ShowsPen w r.2.2 p') ∧
      r.2.1.refRowInvalid = false ∧ (g.twoDim = true → g.refRowInvalid = false)
  copied : r.1.producedRow = true → r.1.inputError = true →
    r.2.2.take g.bytesInRow = priorRow g ∧ r.2.1.refRowInvalid = true
  going : r.1.producedRow = false → r.1.inputError = false ∧
    (r.2.1.refRowInvalid = false → g.refRowInvalid = false) ∧
    ∃ p', p.drawAll (pix (priorRow g)) w items = some p' ∧ InRow w p' r.2.1 r.2.2

theorem pix_take {n : Nat} (h : i < 8 * n) : pix (buf.take n) i = pix buf i := by
  rw [pix, pix, List.getD_eq_getElem?_getD, List.getD_eq_getElem?_getD,
    List.getElem?_take_of_lt (by lia)]

theorem whiteRow_shows (hg : g.bytesInRow = (w + 7) / 8) (hout : (w + 7) / 8 < out.length)
    (hahead : p.Ahead) (hpos : p.pos = 0) :
    ShowsPen w (whiteRow g out) p := by
  have hlen : (List.replicate g.bytesInRow (0 : UInt8)).length = g.bytesInRow :=
    List.length_replicate
  constructor
  · rw [whiteRow, copyRow, List.take_of_length_le (Nat.le_of_eq hlen), List.length_append, hlen,
      List.length_drop]
    lia
  · intro i hi
    rw [hahead i (by lia), whiteRow, copyRow, List.take_of_length_le (Nat.le_of_eq hlen), pix,
      List.getD_eq_getElem?_getD, List.getElem?_append_left (by lia), List.getElem?_replicate,
      if_pos (by lia)]
    exact Nat.zero_testBit _

theorem InRow.bytes_le (h : InRow w p g out) : g.bytesInRow ≤ g.priorP.length := by
  have := h.prior
  rw [h.bytes]
  omega

theorem decodeRow1d_ends {r : Ret × DecInst × List UInt8} (hin : InRow w p g out)
    (hflush : g.flushingToEol = false) (htwo : g.twoDim = false)
    (hrange : InRange (pix (priorRow g)) w p (stepRead g out)) (h : decodeRow1d g out = .ok r) :
    StepEnds w p (stepRead g out) g r := by
  have hread : stepRead g out = runsRead g.gb.rounds g.gb g.white := by
    rw [stepRead, hflush, htwo]
    rfl
  obtain ⟨hpos, hbegun⟩ := hin.one htwo
  -- the row is white at its start, and the row above is not to be referred to from then on
  obtain ⟨out₀, hrun, hshows⟩ : ∃ out₀, decodeRuns g.gb.rounds { g with refRowInvalid := true } out₀
      = .ok r ∧ ShowsPen w out₀ p := by
    rw [decodeRow1d] at h
    by_cases hstart : g.pixelPos = 0
    · rw [if_pos hstart] at h
      exact ⟨_, h, whiteRow_shows hin.bytes hin.room hin.ahead (by omega)⟩
    · rw [if_neg hstart] at h
      obtain ⟨hshows, hinvalid⟩ := hbegun (by omega)
      have hg : { g with refRowInvalid := true } = g := by rw [← hinvalid]
      exact ⟨out, hg ▸ h, hshows⟩
  rw [hread] at hrange ⊢
  have hat : At1d w p { g with refRowInvalid := true } out₀ :=
    ⟨hpos, hin.white, hin.ahead, hshows⟩
  obtain ⟨p', hdraw, hends⟩ := decodeRuns_draws (g := { g with refRowInvalid := true })
    g.gb.rounds hin.rowLen hin.bytes_le hat hrange hrun
  have htwo' : r.2.1.twoDim = false := hends.same.twoDim.trans htwo
  refine ⟨⟨hends.same.priorP, hends.same.rowLen, hends.same.bytesInRow, hends.same.inputFormat,
    hends.same.twoDim, hends.same.length⟩, ?_, hends.room, fun hrow herr => ?_, hends.copied,
    fun hrow => ?_⟩
  · rw [hends.same.length]
    exact hin.prior
  · obtain ⟨hend, hout, hvalid⟩ := hends.good hrow herr
    exact ⟨⟨p', hdraw, hend, hout⟩, hvalid, fun h => absurd (htwo.symm.trans h) Bool.false_ne_true⟩
  · obtain ⟨hat', hinvalid, herr⟩ := hends.going hrow
    refine ⟨herr, fun h => absurd (h.symm.trans hinvalid) Bool.false_ne_true, p', hdraw, ?_⟩
    exact ⟨hends.same.rowLen.trans hin.rowLen, hends.same.bytesInRow.trans hin.bytes,
      hends.same.length ▸ hin.prior, hends.same.inputFormat ▸ hin.format, hends.room,
      hat'.white, hat'.ahead, fun _ => ⟨hat'.pos, fun _ => ⟨hat'.shows, hinvalid⟩⟩,
      fun h => absurd (htwo'.symm.trans h) Bool.false_ne_true⟩

theorem decodeRow2d_ends {r : Ret × DecInst × List UInt8} (hw : w < 2 ^ 31)
    (hin : InRow w p g out) (hflush : g.flushingToEol = false) (htwo : g.twoDim = true)
    (hrange : InRange (pix (priorRow g)) w p (stepRead g out)) (h : decodeRow2d g out = .ok r) :
    StepEnds w p (stepRead g out) g r := by
  have hread : stepRead g out = row2dRead g out := by
    rw [stepRead, hflush, htwo]
    rfl
  obtain ⟨hrow, hbegun⟩ := hin.two htwo
  have hbytes := hin.bytes
  -- the row is white at its start, and the sentinel is behind the row above from then on
  obtain ⟨g₀, out₀, hg₀, hread₀, hrun, hat⟩ : ∃ g₀ out₀, (g₀ = g ∨
      g₀ = { g with priorP := g.priorP.set g.bytesInRow 0x55 }) ∧
      row2dRead g out = modesRead g.gb.rounds ⟨g₀, 0, true, out₀⟩ ∧
      decodeModes g.gb.rounds ⟨g₀, 0, true, out₀⟩ = .ok r ∧
      At2d w (pix (priorRow g)) p ⟨g₀, 0, true, out₀⟩ := by
    have ha0 := hrow.a0
    rw [decodeRow2d] at h
    rw [row2dRead]
    by_cases hstart : g.a0 < 0
    · rw [if_pos hstart] at h ⊢
      obtain ⟨prior, hstore, h⟩ := bind_eq_ok.mp h
      obtain ⟨-, rfl⟩ := store_ok hstore
      have hp : p.start = true := by
        by_contra hnot
        rw [if_neg hnot] at ha0
        lia
      refine ⟨_, _, .inr rfl, rfl, h, ⟨hrow.rowLen, hrow.a0, hrow.start, hrow.white, hrow.ahead,
        hrow.inside, fun i hi => ?_⟩, whiteRow_shows hin.bytes hin.room hin.ahead
          (hrow.start hp), fun _ => (by rintro ⟨⟩)⟩
      show pix (g.priorP.set g.bytesInRow 0x55) i = pix (priorRow g) i
      rw [pix_set (by rw [hbytes]; exact hin.prior), if_neg (by lia), priorRow,
        pix_take (by lia)]
    · rw [if_neg hstart] at h ⊢
      have hp : p.start = false := by
        by_contra hnot
        rw [if_pos (Bool.eq_true_of_not_eq_false hnot)] at ha0
        lia
      exact ⟨g, out, .inl rfl, rfl, h, hrow, hbegun hp, fun _ => (by rintro ⟨⟩)⟩
  have hsame : SameRow g g₀ ∧ g₀.refRowInvalid = g.refRowInvalid := by
    rcases hg₀ with rfl | rfl
    · exact ⟨.refl, rfl⟩
    · exact ⟨⟨List.take_set_of_le (Nat.le_refl _), rfl, rfl, rfl, rfl, List.length_set⟩, rfl⟩
  obtain ⟨hsame, hvalid⟩ := hsame
  rw [hread, hread₀] at hrange ⊢
  have hends := decodeModes_draws (s := ⟨g₀, 0, true, out₀⟩) g.gb.rounds hw
    (hsame.inputFormat ▸ hin.format)
    (by show g₀.bytesInRow ≤ g₀.priorP.length; rw [hsame.bytesInRow, hsame.length]; exact hin.bytes_le)
    hat hrange hrun
  have hends' : Ends2d w (pix (priorRow g)) p (modesRead g.gb.rounds ⟨g₀, 0, true, out₀⟩) g₀ r := hends
  have htwo' : r.2.1.twoDim = true := hends'.same.twoDim.trans (hsame.twoDim.trans htwo)
  have hprior' : r.2.1.priorP.take g.bytesInRow = g.priorP.take g.bytesInRow := by
    rw [← hsame.priorP, ← hsame.bytesInRow]
    exact hends'.same.priorP
  have hlength : r.2.1.priorP.length = g.priorP.length := hends'.same.length.trans hsame.length
  have hbytes' : r.2.1.bytesInRow = g.bytesInRow := hends'.same.bytesInRow.trans hsame.bytesInRow
  have hfmt' : r.2.1.inputFormat = g.inputFormat :=
    hends'.same.inputFormat.trans hsame.inputFormat
  refine ⟨⟨hprior', hends'.same.rowLen.trans hsame.rowLen, hbytes', hfmt',
    htwo'.trans htwo.symm, hlength⟩, hlength ▸ hin.prior, hends'.room, fun hprod herr => ?_,
    fun hprod herr => ?_, fun hprod => ?_⟩
  · obtain ⟨hdraw, hok, hok'⟩ := hends'.good hprod herr
    exact ⟨hdraw, hok, fun _ => hvalid.symm.trans hok'⟩
  · obtain ⟨hcopy, hbad⟩ := hends'.copied hprod herr
    rw [hsame.bytesInRow, hsame.priorP] at hcopy
    exact ⟨hcopy, hbad⟩
  · obtain ⟨herr, hkeep, p', hdraw, hrow', hshows'⟩ := hends'.going hprod
    have habove : priorRow r.2.1 = priorRow g := by rw [priorRow, hbytes', hprior', priorRow]
    refine ⟨herr, fun hok => hvalid.symm.trans (hkeep.symm.trans hok), p', hdraw, ?_⟩
    exact ⟨hrow'.rowLen, hbytes'.trans hin.bytes, hlength ▸ hin.prior, hfmt' ▸ hin.format,
      hends'.room, hrow'.white, hrow'.ahead,
      fun h => absurd (htwo'.symm.trans h) (by decide), fun _ => ⟨habove ▸ hrow', fun _ => hshows'⟩⟩

/-- **What a call comes to**, in a row and out of one. -/
theorem decodeStep_ends {r : Ret × DecInst × List UInt8} (hw : w < 2 ^ 31) (hin : InRow w p g out)
    (hrange : InRange (pix (priorRow g)) w p (stepRead g out)) (h : decodeStep g out = .ok r) :
    StepEnds w p (stepRead g out) g r := by
  rw [decodeStep] at h
  by_cases hflush : g.flushingToEol = true
  · have hread : stepRead g out = [] := by
      rw [stepRead, if_pos hflush]
    rw [if_pos hflush] at h
    obtain ⟨⟨hit, gb⟩, -, h⟩ := bind_eq_ok.mp h
    cases h
    rw [hread]
    refine ⟨⟨rfl, rfl, rfl, rfl, rfl, rfl⟩, hin.prior, hin.room, (by rintro ⟨⟩), (by rintro ⟨⟩),
      fun _ => ⟨rfl, id, p, rfl, ?_⟩⟩
    exact ⟨hin.rowLen, hin.bytes, hin.prior, hin.format, hin.room, hin.white, hin.ahead, hin.one,
      fun htwo => ⟨⟨(hin.two htwo).1.rowLen, (hin.two htwo).1.a0, (hin.two htwo).1.start,
        (hin.two htwo).1.white, (hin.two htwo).1.ahead, (hin.two htwo).1.inside,
        (hin.two htwo).1.above⟩, (hin.two htwo).2⟩⟩
  · rw [if_neg hflush] at h
    by_cases htwo : g.twoDim = true
    · rw [if_pos htwo] at h
      exact decodeRow2d_ends hw hin (Bool.eq_false_iff.mpr hflush) htwo hrange h
    · rw [if_neg htwo] at h
      exact decodeRow1d_ends hin (Bool.eq_false_iff.mpr hflush) (Bool.eq_false_iff.mpr htwo) hrange h

/-! ## Runs -/

/-- What goes into the rows of a call: nothing where there is no decoding. -/
def callEnds (g : DecInst) (inBuf out : List UInt8) : List Item × Ret :=
  if (inBuf.length = 0 ∧ g.gb.cacheCnt < 13) ∨ g.tossEverything then ([], .zero)
  else
    match decodeStep { g with gb := { g.gb with unread := inBuf } } out with
    | .ok (ret, _, _) => (stepRead { g with gb := { g.gb with unread := inBuf } } out, ret)
    | .error _ => ([], .zero)

structure RowOut where
  twoDim : Bool
  error : Bool
  items : List Item
  row : List UInt8
  deriving DecidableEq

/-- The rows that come out in a run of calls. A row in progress stays in the output buffer; after
a row there is a new one. The codes of a row are those since the last row or EOL. -/
def rowsOut : DecInst → List UInt8 → List Item → List (List UInt8 × List UInt8) →
    Except Fault (List RowOut)
  | _, _, _, [] => .ok []
  | g, out, items, (inBuf, fresh) :: calls => do
    let d ← faxDecodeConvert g inBuf out
    let (read, ret) := callEnds g inBuf out
    if d.producedRow then do
      let rows ← rowsOut d.xform fresh [] calls
      .ok (⟨g.twoDim, d.inputError, items ++ read, d.outBuf.take g.bytesInRow⟩ :: rows)
    else rowsOut d.xform d.outBuf (if ret.hitEol then [] else items ++ read) calls

/-- No code of a run takes a row as far as an `int` goes. -/
def CodesInRange (w : Nat) : DecInst → List UInt8 → List Item → List (List UInt8 × List UInt8) → Prop
  | _, _, _, [] => True
  | g, out, items, (inBuf, fresh) :: calls =>
    InRange (pix (priorRow g)) w .atStart (items ++ (callEnds g inBuf out).1) ∧
      ∀ d, faxDecodeConvert g inBuf out = .ok d →
        CodesInRange w d.xform (if d.producedRow then fresh else d.outBuf)
          (if d.producedRow ∨ (callEnds g inBuf out).2.hitEol then []
            else items ++ (callEnds g inBuf out).1) calls

/-- Concealment, from the row above and whether that may be referred to. A row with an error is a
copy of the row above. Any other is described by its codes; in two dimensions, below a row without
an error. -/
def Concealed (w : Nat) : List UInt8 → Bool → List RowOut → Prop
  | _, _, [] => True
  | above, valid, r :: rows =>
    (if r.error then r.row = above
      else DescribesRow (pix above) w r.items r.row ∧ (r.twoDim = true → valid = true)) ∧
      Concealed w r.row (!r.error) rows

/-! ### Between rows -/

structure Sized (w : Nat) (g : DecInst) : Prop where
  rowLen : g.rowLen = w
  bytes : g.bytesInRow = (w + 7) / 8
  prior : (w + 7) / 8 < g.priorP.length
  format : g.inputFormat ≠ .mmr

structure Between (w : Nat) (g : DecInst) : Prop where
  sized : Sized w g
  pixelPos : g.pixelPos = 0
  white : g.white = true
  state2d : g.state2d = .normal2d
  a0 : g.a0 = -1

theorem Between.inRow (h : Between w g) (hroom : (w + 7) / 8 < out.length) :
    InRow w .atStart g out := by
  refine ⟨h.sized.rowLen, h.sized.bytes, h.sized.prior, h.sized.format, hroom, h.white,
    fun _ _ => rfl, fun _ => ⟨h.pixelPos, fun hne => absurd rfl hne⟩, fun _ => ⟨⟨h.sized.rowLen, h.a0,
      fun _ => rfl, h.white, fun _ _ => rfl, fun _ => Nat.zero_le w, fun i hi => ?_⟩, (nomatch ·)⟩⟩
  have hbytes := h.sized.bytes
  rw [priorRow, pix_take (by lia)]

theorem InRow.sized (h : InRow w p g out) : Sized w g := ⟨h.rowLen, h.bytes, h.prior, h.format⟩

theorem afterEol_spec {ret : Ret} {page : Bool} {g' : DecInst} (hs : Sized w g)
    (h : afterEol g ret = .ok (page, g')) :
    (ret.hitEol = true → Between w g' ∧ priorRow g' = priorRow g ∧
      g'.refRowInvalid = g.refRowInvalid) ∧ (ret.hitEol = false → g' = g) := by
  rw [afterEol] at h
  by_cases heol : ret.hitEol = true
  · rw [if_pos heol] at h
    refine ⟨fun _ => ?_, fun hnot => absurd (heol.symm.trans hnot) (by decide)⟩
    obtain ⟨g₁, htag, h⟩ := bind_eq_ok.mp h
    have hg₁ : ∃ two gb, g₁ = { g with twoDim := two, gb := gb } := by
      by_cases hmr : g.inputFormat = .mr
      · rw [readTag_mr hmr] at htag
        obtain ⟨bit, -, htag⟩ := bind_eq_ok.mp htag
        cases htag
        exact ⟨_, _, rfl⟩
      · rw [readTag_of_ne hmr] at htag
        cases htag
        exact ⟨_, _, rfl⟩
    obtain ⟨two, gb, rfl⟩ := hg₁
    dsimp only at h
    split at h
    · cases h
      exact ⟨⟨⟨hs.rowLen, hs.bytes, hs.prior, hs.format⟩, rfl, rfl, rfl, rfl⟩, rfl, rfl⟩
    · cases h
      exact ⟨⟨⟨hs.rowLen, hs.bytes, hs.prior, hs.format⟩, rfl, rfl, rfl, rfl⟩, rfl, rfl⟩
  · rw [if_neg heol] at h
    cases h
    exact ⟨fun hyes => absurd hyes heol, fun _ => rfl⟩

def Flagged (g g' : DecInst) : Prop :=
  ∃ flushing fill eols gb i o, g' = { g with
    flushingToEol := flushing
    gotFill := fill
    numEols := eols
    gb := gb
    dwInNextPos := i
    dwOutNextPos := o }

theorem afterFill_flagged {ret : Ret} : Flagged g (afterFill g ret) := by
  rw [afterFill]
  split
  · exact ⟨_, _, _, _, _, _, rfl⟩
  · exact ⟨_, _, _, _, _, _, rfl⟩

theorem afterError_flagged {ret : Ret} (hfmt : g.inputFormat ≠ .mmr) :
    Flagged g (afterError g ret) := by
  by_cases herr : ret.inputError = true
  · rw [afterError_of_ne herr hfmt]
    exact ⟨_, _, _, _, _, _, rfl⟩
  · rw [afterError_of_ok (Bool.eq_false_iff.mpr herr)]
    exact ⟨_, _, _, _, _, _, rfl⟩

theorem afterRow_between {ret : Ret} (hs : Sized w g) (hrow : ret.producedRow = true)
    (hroom : (w + 7) / 8 < out.length) :
    Between w (afterFill (afterRow (afterError g ret) ret out) ret) ∧
      priorRow (afterFill (afterRow (afterError g ret) ret out) ret) = out.take g.bytesInRow ∧
      (afterFill (afterRow (afterError g ret) ret out) ret).refRowInvalid = g.refRowInvalid := by
  have hflagged : Flagged g (afterError g ret) := afterError_flagged hs.format
  obtain ⟨f, got, n, gb, i, o, hflags⟩ := hflagged
  have hfilled : Flagged (afterRow (afterError g ret) ret out)
      (afterFill (afterRow (afterError g ret) ret out) ret) := afterFill_flagged
  obtain ⟨f', got', n', gb', i', o', hflags'⟩ := hfilled
  have hbytes := hs.bytes
  have hprior := hs.prior
  have htake : (out.take g.bytesInRow).length = g.bytesInRow := List.length_take_of_le (by lia)
  rw [hflags', afterRow, if_pos hrow, hflags]
  refine ⟨⟨⟨hs.rowLen, hs.bytes, ?_, hs.format⟩, rfl, rfl, rfl, rfl⟩, ?_, rfl⟩
  · show (w + 7) / 8 < (copyRow g.priorP out g.bytesInRow).length
    rw [copyRow, List.length_append, htake, List.length_drop]
    lia
  · show (copyRow g.priorP out g.bytesInRow).take g.bytesInRow = _
    rw [copyRow, List.take_left' htake]

theorem InRow.flagged {g' : DecInst} (h : InRow w p g out) (hg : Flagged g g') :
    InRow w p g' out := by
  obtain ⟨f, got, n, gb, i, o, rfl⟩ := hg
  exact ⟨h.rowLen, h.bytes, h.prior, h.format, h.room, h.white, h.ahead, h.one, fun htwo =>
    ⟨⟨(h.two htwo).1.rowLen, (h.two htwo).1.a0, (h.two htwo).1.start, (h.two htwo).1.white,
      (h.two htwo).1.ahead, (h.two htwo).1.inside, (h.two htwo).1.above⟩, (h.two htwo).2⟩⟩

theorem Between.flagged {g' : DecInst} (h : Between w g) (hg : Flagged g g') : Between w g' := by
  obtain ⟨f, got, n, gb, i, o, rfl⟩ := hg
  exact ⟨⟨h.sized.rowLen, h.sized.bytes, h.sized.prior, h.sized.format⟩, h.pixelPos, h.white,
    h.state2d, h.a0⟩

theorem Flagged.kept {g' : DecInst} (hg : Flagged g g') :
    priorRow g' = priorRow g ∧ g'.refRowInvalid = g.refRowInvalid := by
  obtain ⟨f, got, n, gb, i, o, rfl⟩ := hg
  exact ⟨rfl, rfl⟩

/-- What a call does: a row comes out, or the row goes on, or is given up for an EOL. -/
structure CallMeans (w : Nat) (g : DecInst) (inBuf out : List UInt8) (items : List Item)
    (d : Decoded) : Prop where
  row : d.producedRow = true → Between w d.xform ∧
    priorRow d.xform = d.outBuf.take g.bytesInRow ∧
    (d.xform.refRowInvalid = false → d.inputError = false) ∧
    if d.inputError then d.outBuf.take g.bytesInRow = priorRow g
    else DescribesRow (pix (priorRow g)) w (items ++ (callEnds g inBuf out).1)
      (d.outBuf.take g.bytesInRow) ∧ (g.twoDim = true → g.refRowInvalid = false)
  going : d.producedRow = false → priorRow d.xform = priorRow g ∧
    (d.xform.refRowInvalid = false → g.refRowInvalid = false) ∧
    ∃ p, Pen.atStart.drawAll (pix (priorRow g)) w
        (if (callEnds g inBuf out).2.hitEol then [] else items ++ (callEnds g inBuf out).1) = some p ∧
      InRow w p d.xform d.outBuf

theorem CallMeans.idle {inBuf : List UInt8} {d : Decoded} (hin : InRow w p g out)
    (hdraw : Pen.atStart.drawAll (pix (priorRow g)) w items = some p)
    (hcall : callEnds g inBuf out = ([], .zero)) (hrow : d.producedRow = false)
    (hflag : Flagged g d.xform) (hout : d.outBuf = out) : CallMeans w g inBuf out items d := by
  refine ⟨fun hyes => absurd (hyes.symm.trans hrow) (by decide), fun _ => ⟨hflag.kept.1,
    fun hok => hflag.kept.2.symm.trans hok, p, ?_, hout ▸ hin.flagged hflag⟩⟩
  rw [hcall, List.append_nil]
  exact hdraw

theorem after_produced {ret : Ret} {page : Bool} {g' : DecInst} (hs : Sized w g)
    (hrow : ret.producedRow = true) (hroom : (w + 7) / 8 < out.length)
    (h : afterEol (afterFill (afterRow (afterError g ret) ret out) ret) ret = .ok (page, g')) :
    Between w g' ∧ priorRow g' = out.take g.bytesInRow ∧ g'.refRowInvalid = g.refRowInvalid := by
  obtain ⟨hbetween, habove, hvalid⟩ := afterRow_between hs hrow hroom
  obtain ⟨hhit, hmiss⟩ := afterEol_spec hbetween.sized h
  by_cases hyes : ret.hitEol = true
  · obtain ⟨hb, hp, hv⟩ := hhit hyes
    exact ⟨hb, hp.trans habove, hv.trans hvalid⟩
  · rw [hmiss (Bool.eq_false_iff.mpr hyes)]
    exact ⟨hbetween, habove, hvalid⟩

theorem after_going {ret : Ret} {page : Bool} {g' : DecInst} (hin : InRow w p g out)
    (hrow : ret.producedRow = false) (herr : ret.inputError = false)
    (h : afterEol (afterFill (afterRow (afterError g ret) ret out) ret) ret = .ok (page, g')) :
    priorRow g' = priorRow g ∧ g'.refRowInvalid = g.refRowInvalid ∧
      InRow w (if ret.hitEol then .atStart else p) g' out := by
  have hfill : afterFill (afterRow (afterError g ret) ret out) ret = afterFill g ret := by
    rw [afterError_of_ok herr, afterRow, if_neg (Bool.eq_false_iff.mp hrow)]
  rw [hfill] at h
  have hflag : Flagged g (afterFill g ret) := afterFill_flagged
  have hin' := hin.flagged hflag
  obtain ⟨hprior, hvalid⟩ := hflag.kept
  obtain ⟨hhit, hmiss⟩ := afterEol_spec hin'.sized h
  by_cases hyes : ret.hitEol = true
  · obtain ⟨hbetween, hprior', hvalid'⟩ := hhit hyes
    rw [if_pos hyes]
    exact ⟨hprior'.trans hprior, hvalid'.trans hvalid, hbetween.inRow hin.room⟩
  · rw [hmiss (Bool.eq_false_iff.mpr hyes), if_neg hyes]
    exact ⟨hprior, hvalid, hin'⟩

theorem faxDecodeConvert_ends {inBuf : List UInt8} {d : Decoded} (hw : w < 2 ^ 31)
    (hin : InRow w p g out)
    (hdraw : Pen.atStart.drawAll (pix (priorRow g)) w items = some p)
    (hrange : InRange (pix (priorRow g)) w .atStart (items ++ (callEnds g inBuf out).1))
    (h : faxDecodeConvert g inBuf out = .ok d) : CallMeans w g inBuf out items d := by
  rw [faxDecodeConvert] at h
  by_cases hdone : inBuf.length = 0 ∧ g.gb.cacheCnt < 13
  · rw [if_pos hdone] at h
    cases h
    exact CallMeans.idle hin hdraw (if_pos (.inl hdone)) rfl ⟨_, _, _, _, _, _, rfl⟩ rfl
  rw [if_neg hdone] at h
  by_cases htoss : g.tossEverything = true
  · rw [if_pos htoss] at h
    cases h
    exact CallMeans.idle hin hdraw (if_pos (.inr htoss)) rfl ⟨_, _, _, _, _, _, rfl⟩ rfl
  rw [if_neg htoss] at h
  obtain ⟨⟨ret, g₁, out₁⟩, hstep, h⟩ := bind_eq_ok.mp h
  obtain ⟨g₀, hg₀⟩ : ∃ g₀ : DecInst, g₀ = { g with gb := { g.gb with unread := inBuf } } := ⟨_, rfl⟩
  have hflag₀ : Flagged g g₀ := ⟨_, _, _, _, _, _, hg₀⟩
  have hcall : callEnds g inBuf out = (stepRead g₀ out, ret) := by
    rw [callEnds, if_neg (by rw [not_or]; exact ⟨hdone, htoss⟩), hstep, ← hg₀]
  rw [← hg₀] at hstep
  have hin₀ := hin.flagged hflag₀
  obtain ⟨hprior₀, hvalid₀⟩ := hflag₀.kept
  have hbytes₀ : g₀.bytesInRow = g.bytesInRow := by rw [hg₀]
  have htwo₀ : g₀.twoDim = g.twoDim := by rw [hg₀]
  rw [hcall] at hrange
  have hends := decodeStep_ends hw hin₀ (hprior₀ ▸ hrange.append hdraw) hstep
  have hbytes₁ : g₁.bytesInRow = g.bytesInRow := hends.same.bytesInRow.trans hbytes₀
  obtain ⟨⟨page, g₃⟩, heol, h⟩ := bind_eq_ok.mp h
  cases h
  have hflag₃ : ∀ i o, Flagged g₃ { g₃ with dwInNextPos := i, dwOutNextPos := o } :=
    fun i o => ⟨_, _, _, _, _, _, rfl⟩
  by_cases hrow : ret.producedRow = true
  · have hsized : Sized w g₁ := ⟨hends.same.rowLen.trans hin₀.rowLen,
      hends.same.bytesInRow.trans hin₀.bytes, hends.prior, hends.same.inputFormat ▸ hin₀.format⟩
    obtain ⟨hbetween, habove, hvalid₁⟩ := after_produced hsized hrow hends.room heol
    rw [hbytes₁] at habove
    refine ⟨fun _ => ⟨hbetween.flagged (hflag₃ _ _), (hflag₃ _ _).kept.1.trans habove, ?_, ?_⟩,
      fun hnot => absurd (hrow.symm.trans hnot) (by decide)⟩
    · intro hok
      have hok₁ : g₁.refRowInvalid = false := hvalid₁.symm.trans hok
      by_contra herr
      have hbad := (hends.copied hrow (Bool.eq_true_of_not_eq_false herr)).2
      exact absurd (hbad.symm.trans hok₁) (by decide)
    · show if ret.inputError = true then out₁.take g.bytesInRow = priorRow g
        else DescribesRow (pix (priorRow g)) w (items ++ (callEnds g inBuf out).1)
          (out₁.take g.bytesInRow) ∧ (g.twoDim = true → g.refRowInvalid = false)
      by_cases herr : ret.inputError = true
      · rw [if_pos herr, ← hbytes₀, ← hprior₀]
        exact (hends.copied hrow herr).1
      · rw [if_neg herr, hcall]
        obtain ⟨⟨p', hp', hend, hshows⟩, -, hvalid⟩ :=
          hends.good hrow (Bool.eq_false_iff.mpr herr)
        refine ⟨⟨p', ?_, hend, fun i hi => ?_⟩, fun htwo => ?_⟩
        · rw [Pen.drawAll_append, hdraw, ← hprior₀]
          exact hp'
        · have hbytes := hin.bytes
          rw [pix_take (by lia)]
          exact hshows.2 i hi
        · rw [← hvalid₀]
          exact hvalid (htwo₀.trans htwo)
  · have hrow' : ret.producedRow = false := Bool.eq_false_iff.mpr hrow
    obtain ⟨herr, hkeep, p', hp', hin'⟩ := hends.going hrow'
    obtain ⟨habove, hvalid₁, hin₃⟩ := after_going hin' hrow' herr heol
    have habove₁ : priorRow g₁ = priorRow g := by
      rw [← hprior₀, priorRow, priorRow, hends.same.bytesInRow]
      exact hends.same.priorP
    refine ⟨fun hyes => absurd hyes hrow, fun _ => ⟨(hflag₃ _ _).kept.1.trans
      (habove.trans habove₁), fun hok => ?_, _, ?_, hin₃.flagged (hflag₃ _ _)⟩⟩
    · rw [← hvalid₀]
      exact hkeep (hvalid₁.symm.trans hok)
    · rw [hcall]
      by_cases hyes : ret.hitEol = true
      · rw [if_pos hyes, if_pos hyes]
        rfl
      · rw [if_neg hyes, if_neg hyes, Pen.drawAll_append, hdraw, ← hprior₀]
        exact hp'

/-- **Concealment, from any state of a run.** -/
theorem rowsOut_concealed {calls : List (List UInt8 × List UInt8)} {rows : List RowOut}
    {valid : Bool} (hw : w < 2 ^ 31) (hin : InRow w p g out)
    (hdraw : Pen.atStart.drawAll (pix (priorRow g)) w items = some p)
    (hvalid : g.refRowInvalid = false → valid = true)
    (hrange : CodesInRange w g out items calls)
    (hfresh : ∀ call ∈ calls, (w + 7) / 8 < call.2.length)
    (h : rowsOut g out items calls = .ok rows) : Concealed w (priorRow g) valid rows := by
  induction calls generalizing g out items p rows valid with
  | nil =>
    cases h
    trivial
  | cons call calls ih =>
    obtain ⟨inBuf, fresh⟩ := call
    rw [rowsOut] at h
    obtain ⟨d, hd, h⟩ := bind_eq_ok.mp h
    have hends := faxDecodeConvert_ends hw hin hdraw hrange.1 hd
    have hrest := hrange.2 d hd
    have hroom := hfresh (inBuf, fresh) List.mem_cons_self
    have hfresh' : ∀ call ∈ calls, (w + 7) / 8 < call.2.length :=
      fun call hcall => hfresh call (List.mem_cons_of_mem _ hcall)
    dsimp only at h
    by_cases hrow : d.producedRow = true
    · rw [if_pos hrow] at h
      rw [if_pos hrow, if_pos (.inl hrow)] at hrest
      obtain ⟨rows', hrows', h⟩ := bind_eq_ok.mp h
      cases h
      obtain ⟨hbetween, habove, herr, hfirst⟩ := hends.row hrow
      refine ⟨?_, ?_⟩
      · show if d.inputError = true then d.outBuf.take g.bytesInRow = priorRow g
          else DescribesRow (pix (priorRow g)) w (items ++ (callEnds g inBuf out).1)
            (d.outBuf.take g.bytesInRow) ∧ (g.twoDim = true → valid = true)
        by_cases hbad : d.inputError = true
        · rw [if_pos hbad] at hfirst ⊢
          exact hfirst
        · rw [if_neg hbad] at hfirst ⊢
          exact ⟨hfirst.1, fun htwo => hvalid (hfirst.2 htwo)⟩
      · have hnext : Concealed w (priorRow d.xform) (!d.inputError) rows' :=
          ih (hbetween.inRow hroom) rfl (fun hok => by rw [herr hok]; rfl) hrest hfresh' hrows'
        rw [habove] at hnext
        exact hnext
    · rw [if_neg hrow] at h
      obtain ⟨habove, hkeep, p', hp', hin'⟩ := hends.going (Bool.eq_false_iff.mpr hrow)
      have hitems : (if d.producedRow = true ∨ (callEnds g inBuf out).2.hitEol = true then []
          else items ++ (callEnds g inBuf out).1)
            = if (callEnds g inBuf out).2.hitEol = true then []
              else items ++ (callEnds g inBuf out).1 := by
        by_cases hyes : (callEnds g inBuf out).2.hitEol = true
        · rw [if_pos hyes, if_pos (.inr hyes)]
        · rw [if_neg hyes, if_neg (by rw [not_or]; exact ⟨hrow, hyes⟩)]
      rw [if_neg hrow, hitems] at hrest
      rw [← habove] at hp' ⊢
      exact ih hin' hp' (fun hok => hvalid (hkeep hok)) hrest hfresh' h

def mrOpened : DecInst :=
  ⟨0, 0, ⟨[], 0, 0, 0⟩, 0, true, .normal2d, -1, [0, 0], false, .mr, 0, false, true, false, false, 8,
    1⟩

def mrInRow : DecInst :=
  ⟨4, 0, ⟨[], 19, 1310847, 0⟩, 0, true, .normal2d, -1, [0, 0], false, .mr, 1, false, false, false,
    true, 8, 1⟩

def earlyRow : List (List UInt8 × List UInt8) :=
  [([0x00, 0x14, 0x00, 0x7F], [0, 0]), ([0xFF], [0, 0])]

theorem earlyRow_calls :
    faxDecodeConvert mrOpened [0x00, 0x14, 0x00, 0x7F] [0, 0]
        = .ok ⟨false, false, false, false, 4, 4, 0, 0, [0, 0], mrInRow⟩ ∧
      callEnds mrOpened [0x00, 0x14, 0x00, 0x7F] [0, 0] = ([], ⟨false, false, true, false⟩) ∧
      (callEnds mrInRow [0xFF] [0, 0]).1 = [.vertical 0] := by
  refine ⟨?_, ?_, ?_⟩ <;> decide +kernel

theorem earlyRow_out :
    rowsOut mrOpened [0, 0] [] earlyRow = .ok [⟨true, false, [.vertical 0], [0]⟩] := by
  decide +kernel

end Hplip.Ip
