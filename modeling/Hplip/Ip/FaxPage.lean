import Mathlib
import Hplip.Ip.FaxSentinel
import Hplip.Ip.FaxRoundTrip

/-!
# A fax page written and read back (xfax.c)

The encoder is called with each row and then once to flush. The decoder is called with what is left
of these bytes, until there is nothing left: it makes the same rows, and then reports the page.
-/

namespace Hplip.Ip

open Bits Scan RowCoding

variable {fmt : FaxFormat} {n w k : Nat} {two two' : Bool} {bits tail codes rest : List Bool}
  {ref : Nat → Bool} {row : List UInt8} {rows : List (List UInt8)}

/-! ## What is written -/

/-- The bytes of a page: each row in a buffer with other memory behind it, and the flush. -/
def encodePage (outAvail : Nat) (behind : List UInt8) :
    List (List UInt8) → EncInst → Except Fault (Called (List UInt8))
  | [], g => do
    match ← faxEncodeConvert g 0 [] outAvail with
    | .fatalError => .ok .fatalError
    | .returned e => .ok (.returned e.outBytes)
  | row :: rows, g => do
    match ← faxEncodeConvert g g.rowBytes (row ++ behind) outAvail with
    | .fatalError => .ok .fatalError
    | .returned e =>
      match ← encodePage outAvail behind rows e.xform with
      | .fatalError => .ok .fatalError
      | .returned bytes => .ok (.returned (e.outBytes ++ bytes))

/-- The tag of MR data, behind an EOL. -/
def tagWord (fmt : FaxFormat) (two : Bool) : List Bool := if fmt = .mr then [!two] else []

/-- What is put before a row. -/
def headWord (fmt : FaxFormat) (two : Bool) : List Bool :=
  if fmt = .mmr then [] else eolWord ++ tagWord fmt two

@[simp] theorem headWord_mh : headWord .mh two = eolWord := rfl

@[simp] theorem headWord_mr : headWord .mr two = eolWord ++ [!two] := rfl

@[simp] theorem headWord_mmr : headWord .mmr two = [] := rfl

/-- The EOLs that end a page, less the first one of MH and MR data. -/
def tailWord (fmt : FaxFormat) : List Bool :=
  if fmt = .mmr then eolWord ++ eolWord
  else (List.replicate 5 (eolWord ++ tagWord fmt false)).flatten

/-- The codes of a row below another. -/
inductive RowCodes (ref row : Nat → Bool) (n : Nat) : Bool → List Bool → Prop
  | runs {rs : List Nat} (h : Runs row n false 0 rs) : RowCodes ref row n false (runsWord false rs)
  | modes {ms : List (Bool × Mode)} (h : Modes row ref n true false 0 ms) :
    RowCodes ref row n true (modesWord ms)

/-- Whether a format has such rows. -/
def FaxFormat.Has (fmt : FaxFormat) (two : Bool) : Prop :=
  (fmt = .mh → two = false) ∧ (fmt = .mmr → two = true)

/-- The bits of a page, behind what is put before its first row. -/
inductive Coded (fmt : FaxFormat) (n : Nat) (tail : List Bool) :
    (Nat → Bool) → List (List UInt8) → Bool → List Bool → Prop
  | nil {ref : Nat → Bool} : Coded fmt n tail ref [] (fmt = .mmr) tail
  | cons {ref above pic : Nat → Bool} {row : List UInt8} {rows : List (List UInt8)}
      {two two' : Bool} {codes bits : List Bool} {k : Nat} (htwo : fmt.Has two)
      (habove : ∀ i < n, above i = ref i) (hpic : ∀ i < n, pic i = pix row i)
      (hcodes : RowCodes above pic n two codes) (hfill : fmt = .mmr → k = 0)
      (h : Coded fmt n tail (pix row) rows two' bits) :
    Coded fmt n tail ref (row :: rows) two
      (codes ++ (List.replicate k false ++ (headWord fmt two' ++ bits)))

variable {g g₁ : EncInst} {buf : List UInt8}

/-- Whether the next row is two-dimensional. -/
def EncInst.nextTwoDim (g : EncInst) : Bool :=
  match g.wOutFmt with
  | .mh => false
  | .mr => !decide (g.iRowNum % g.w12Cycle = 0)
  | .mmr => true

/-- The prior row is there, and is `ref`. -/
def EncInst.Above (g : EncInst) (n : Nat) (ref : Nat → Bool) : Prop :=
  g.wOutFmt ≠ .mh → ∃ prior, g.priorP = some prior ∧ n / 8 < prior.length ∧
    ∀ i < n, pix prior i = ref i

theorem EncInst.Above.of_rest (h : g.Above n ref) (hrest : g₁.rest = g.rest) : g₁.Above n ref := by
  have hfmt : g₁.wOutFmt = g.wOutFmt := show g₁.rest.wOutFmt = _ from hrest ▸ rfl
  have hprior : g₁.priorP = g.priorP := show g₁.rest.priorP = _ from hrest ▸ rfl
  rw [EncInst.Above, hfmt, hprior]
  exact h

/-- A row is put as what is before it, its codes and fill. -/
theorem encodeRow_codes (hg : g.Wf) (hn : n % 8 = 0) (hrow : g.iRowLen = n)
    (hbuf : n / 8 < buf.length) (habove : g.Above n ref) :
    ∃ g₁ above codes k, encodeRow g buf = .ok (g₁, withSentinel buf n) ∧ g₁.Wf ∧
      g₁.bits = g.bits ++ (headWord g.wOutFmt g.nextTwoDim ++ (codes ++ List.replicate k false)) ∧
      (∀ i < n, above i = ref i) ∧ RowCodes above (pix (withSentinel buf n)) n g.nextTwoDim codes ∧
      (g.wOutFmt = .mmr → k = 0) ∧ (g.wOutFmt ≠ .mmr → g₁.wBitsAvail = 32) ∧ g₁.Above n ref := by
  have hstops := withSentinel_stops hn hbuf
  -- one dimension, with fill
  have hruns : ∀ mr, ∃ g₁ rs k, encodeRow1d g buf n mr = .ok (g₁, withSentinel buf n) ∧
      (putFillBits g₁).Wf ∧ (putFillBits g₁).bits = g.bits ++
        ((eolWord ++ if mr then [true] else []) ++ (runsWord false rs ++ List.replicate k false)) ∧
      RowCodes ref (pix (withSentinel buf n)) n false (runsWord false rs) ∧
      (putFillBits g₁).wBitsAvail = 32 ∧ (putFillBits g₁).Above n ref := by
    intro mr
    obtain ⟨g₁, hrun⟩ : ∃ g₁, encodeRow1d g buf n mr = .ok (g₁, withSentinel buf n) :=
      encodeRow1d_returns hbuf hstops
    obtain ⟨rs, hrs, hemits⟩ := encodeRow1d_emits hrun
    obtain ⟨hwf, hfull, ⟨k, hfill⟩, -⟩ := putFillBits_spec (hemits.wf hg)
    refine ⟨g₁, rs, k, hrun, hwf, ?_, .runs hrs, hfull,
      habove.of_rest ((putFillBits_rest g₁).trans hemits.rest)⟩
    rw [hfill, hemits.bits hg]
    simp only [List.append_assoc]
  -- two dimensions, below the prior row with the sentinel
  have hmodes : ∀ mr, g.wOutFmt ≠ .mh → ∃ g₁ ms prior, g.priorP = some prior ∧
      encodeRow2d g buf prior n mr = .ok (g₁, withSentinel buf n, withSentinel prior n) ∧
      EncInst.Wf { g₁ with priorP := some (withSentinel prior n) } ∧
      g₁.bits = g.bits ++ ((if mr then eolWord ++ [false] else []) ++ modesWord ms) ∧
      (∀ i < n, pix (withSentinel prior n) i = ref i) ∧
      RowCodes (pix (withSentinel prior n)) (pix (withSentinel buf n)) n true (modesWord ms) ∧
      EncInst.Above { g₁ with priorP := some (withSentinel prior n) } n ref := by
    intro mr hfmt
    obtain ⟨prior, hprior, hlen, hpix⟩ := habove hfmt
    obtain ⟨g₁, hrun⟩ : ∃ g₁, encodeRow2d g buf prior n mr
        = .ok (g₁, withSentinel buf n, withSentinel prior n) :=
      encodeRow2d_returns hbuf hstops hlen (withSentinel_stops hn hlen)
    obtain ⟨ms, hms, hemits⟩ := encodeRow2d_emits hrun
    obtain ⟨h₁, h₂, h₃⟩ := hemits.wf hg
    have hpix : ∀ i < n, pix (withSentinel prior n) i = ref i :=
      fun i hi => (withSentinel_pix hn hlen i hi).trans (hpix i hi)
    exact ⟨g₁, ms, prior, hprior, hrun, ⟨h₁, h₂, h₃⟩, hemits.bits hg, hpix, .modes hms,
      fun _ => ⟨_, rfl, by rwa [withSentinel, List.length_set], hpix⟩⟩
  cases hfmt : g.wOutFmt with
  | mh =>
    obtain ⟨g₁, rs, k, hrun, hwf, hbits, hcodes, hfull, habove₁⟩ := hruns false
    have htwo : g.nextTwoDim = false := by rw [EncInst.nextTwoDim, hfmt]
    refine ⟨putFillBits g₁, ref, runsWord false rs, k, ?_, hwf, hbits, fun _ _ => rfl,
      htwo ▸ hcodes, (by rintro ⟨⟩), fun _ => hfull, habove₁⟩
    rw [encodeRow, hfmt, hrow]
    exact bind_eq_ok.mpr ⟨_, hrun, rfl⟩
  | mr =>
    by_cases hcycle : g.iRowNum % g.w12Cycle = 0
    · obtain ⟨g₁, rs, k, hrun, hwf, hbits, hcodes, hfull, habove₁⟩ := hruns true
      have htwo : g.nextTwoDim = false := by simp [EncInst.nextTwoDim, hfmt, hcycle]
      refine ⟨putFillBits g₁, ref, runsWord false rs, k, ?_, hwf, ?_, fun _ _ => rfl,
        htwo ▸ hcodes, (by rintro ⟨⟩), fun _ => hfull, habove₁⟩
      · rw [encodeRow, hfmt]
        dsimp only
        rw [if_pos hcycle, hrow]
        exact bind_eq_ok.mpr ⟨_, hrun, rfl⟩
      · rw [hbits, headWord_mr, htwo, if_pos rfl, Bool.not_false]
    · obtain ⟨g₁, ms, prior, hprior, hrun, hwf₁, hbits, hpix, hcodes, habove₁⟩ :=
        hmodes true (by rw [hfmt]; rintro ⟨⟩)
      obtain ⟨hwf, hfull, ⟨k, hfill⟩, -⟩ := putFillBits_spec hwf₁
      have htwo : g.nextTwoDim = true := by simp [EncInst.nextTwoDim, hfmt, hcycle]
      refine ⟨_, pix (withSentinel prior n), modesWord ms, k, ?_, hwf, ?_, hpix, htwo ▸ hcodes,
        (by rintro ⟨⟩), fun _ => hfull, habove₁.of_rest (putFillBits_rest _)⟩
      · rw [encodeRow, hfmt]
        dsimp only
        rw [if_neg hcycle, hprior, hrow]
        exact bind_eq_ok.mpr ⟨_, hrun, rfl⟩
      · rw [hfill]
        show g₁.bits ++ _ = _
        rw [hbits, headWord_mr, htwo, if_pos rfl, Bool.not_true]
        simp only [List.append_assoc]
  | mmr =>
    obtain ⟨g₁, ms, prior, hprior, hrun, hwf, hbits, hpix, hcodes, habove₁⟩ :=
      hmodes false (by rw [hfmt]; rintro ⟨⟩)
    have htwo : g.nextTwoDim = true := by rw [EncInst.nextTwoDim, hfmt]
    refine ⟨_, pix (withSentinel prior n), modesWord ms, 0, ?_, hwf, ?_, hpix, htwo ▸ hcodes,
      fun _ => rfl, fun hne => absurd rfl hne, habove₁⟩
    · rw [encodeRow, hfmt, hprior, hrow]
      exact bind_eq_ok.mpr ⟨_, hrun, rfl⟩
    · show g₁.bits = _
      rw [hbits, headWord_mmr, if_neg Bool.false_ne_true, List.replicate_zero, List.append_nil]

/-- A call with a row, that returns. -/
theorem faxEncodeConvert_row {outAvail : Nat} {out : List UInt8} (hpos : 0 < g.rowBytes)
    (hout : outAvail ≠ 0) (h : encodeRow { g with pbOut := [] } buf = .ok (g₁, out)) :
    ∃ e, faxEncodeConvert g g.rowBytes buf outAvail = .ok (.returned e) ∧
      e.outBytes = g₁.pbOut ∧ ∃ inPos outPos, e.xform = { g₁ with
        priorP := g₁.priorP.map fun prior => copyRow prior out g.rowBytes
        dwInNextPos := inPos
        dwOutNextPos := outPos
        iRowNum := g₁.iRowNum + 1
        pbOut := [] } := by
  rw [faxEncodeConvert]
  dsimp only
  rw [if_neg (by omega), if_neg (by rw [EncInst.rowBytes]; omega)]
  exact ⟨_, bind_eq_ok.mpr ⟨_, h, rfl⟩, rfl, _, _, rfl⟩

/-- What the encoder is between calls: with MMR data it may hold bits. -/
structure Encodes (g : EncInst) (fmt : FaxFormat) (n : Nat) (ref : Nat → Bool) : Prop where
  wf : g.Wf
  format : g.wOutFmt = fmt
  row : g.iRowLen = n
  above : g.Above n ref
  full : fmt ≠ .mmr → g.wBitsAvail = 32

theorem pix_copyRow {prior : List UInt8} (hn : n % 8 = 0) (hlen : n / 8 < prior.length)
    (hbuf : n / 8 < buf.length) :
    n / 8 < (copyRow prior (withSentinel buf n) (n / 8)).length ∧
      ∀ i < n, pix (copyRow prior (withSentinel buf n) (n / 8)) i = pix buf i := by
  have htake : ((withSentinel buf n).take (n / 8)).length = n / 8 :=
    List.length_take_of_le (by rw [withSentinel, List.length_set]; omega)
  refine ⟨?_, fun i hi => ?_⟩
  · rw [copyRow, List.length_append, htake, List.length_drop]
    omega
  · have hfront : ∀ l : List UInt8, pix (l.take (n / 8)) i = pix l i :=
      fun l => pix_take (by omega)
    rw [← withSentinel_pix hn hbuf i hi, ← hfront, ← hfront (withSentinel buf n), copyRow,
      List.take_left' htake]

theorem EncInst.pending_of_full (h : g.wBitsAvail = 32) : g.pending = [] := by
  rw [EncInst.pending, h]
  rfl

theorem emits_iterate {f : EncInst → EncInst} {word : List Bool} (h : ∀ g, Emits g (f g) word)
    (m : Nat) (g : EncInst) : Emits g (f^[m] g) (List.replicate m word).flatten := by
  induction m generalizing g with
  | zero => exact .nil
  | succ m ih => exact (h g).trans (ih (f g))

theorem putEnding_emits (g : EncInst) :
    Emits g (putEnding g) (headWord g.wOutFmt (g.wOutFmt = .mmr) ++ tailWord g.wOutFmt) := by
  rw [putEnding]
  cases g.wOutFmt with
  | mh => exact emits_iterate putEOL_emits 6 g
  | mr =>
    exact emits_iterate (fun g => (putEOL_emits g).trans
      (emits_putBits _ (by decide) (by decide) (by decide))) 6 g
  | mmr => exact (putEOL_emits g).trans (putEOL_emits _)

/-- **A page is put as its rows are coded**, whatever bits the encoder still holds. -/
theorem encodePage_coded {outAvail : Nat} {behind : List UInt8} (hn : n % 8 = 0) (hpos : 0 < n)
    (hrows : ∀ row ∈ rows, row.length = n / 8) (hbehind : behind ≠ []) (hout : outAvail ≠ 0)
    (hg : Encodes g fmt n ref) :
    ∃ bytes bits two pad, encodePage outAvail behind rows g = .ok (.returned bytes) ∧
      Coded fmt n (tailWord fmt ++ List.replicate pad false) ref rows two bits ∧
      bitsOf bytes = g.pending ++ (headWord fmt two ++ bits) := by
  have hwf : EncInst.Wf { g with pbOut := [] } := ⟨hg.wf.avail, hg.wf.buffer, hg.wf.low⟩
  induction rows generalizing g ref with
  | nil =>
    have hending := putEnding_emits { g with pbOut := [] }
    obtain ⟨-, hfull, pad, -, hflush⟩ := putFlush_spec (hending.wf hwf)
    refine ⟨_, _, _, pad, rfl, .nil, ?_⟩
    rw [EncInst.bits, EncInst.pending_of_full hfull, List.append_nil, hending.bits hwf] at hflush
    rw [hflush, ← hg.format]
    simp only [List.append_assoc]
    rfl
  | cons row rows ih =>
    have hlen := hrows row List.mem_cons_self
    have hbuf : n / 8 < (row ++ behind).length := by
      have := List.length_pos_iff.mpr hbehind
      rw [List.length_append]
      omega
    have hbytes : g.rowBytes = n / 8 := by
      rw [EncInst.rowBytes, hg.row]
      omega
    have hpix : ∀ i < n, pix (row ++ behind) i = pix row i := fun i hi => by
      rw [← pix_take (n := n / 8) (by omega), List.take_left' hlen]
    obtain ⟨g₁, above, codes, k, hrow, hwf₁, hput, habove, hcodes, hk, hfull, habove₁⟩ :=
      encodeRow_codes (g := { g with pbOut := [] }) hwf hn hg.row hbuf hg.above
    have hconfig := encodeRow_config hrow
    have hfmt₁ : g₁.wOutFmt = fmt :=
      (show g₁.config.wOutFmt = _ from hconfig ▸ rfl).trans hg.format
    have hrow₁ : g₁.iRowLen = n := (show g₁.config.iRowLen = _ from hconfig ▸ rfl).trans hg.row
    obtain ⟨e, hcall, houtBytes, inPos, outPos, hx⟩ :=
      faxEncodeConvert_row (by rw [hbytes]; omega) hout hrow
    have hnext : Encodes e.xform fmt n (pix row) := by
      rw [hx, hbytes]
      refine ⟨⟨hwf₁.avail, hwf₁.buffer, hwf₁.low⟩, hfmt₁, hrow₁, fun hne => ?_,
        fun hne => hfull (hg.format ▸ hne)⟩
      obtain ⟨prior, hprior, hlong, -⟩ := habove₁ hne
      obtain ⟨hlong', hcopy⟩ := pix_copyRow hn hlong hbuf
      exact ⟨copyRow prior (withSentinel (row ++ behind) n) (n / 8), by rw [hprior]; rfl, hlong',
        fun i hi => (hcopy i hi).trans (hpix i hi)⟩
    obtain ⟨bytes, bits, two, pad, hpage, hcoded, hbits⟩ :=
      ih (fun row h => hrows row (List.mem_cons_of_mem _ h)) hnext
        ⟨hnext.wf.avail, hnext.wf.buffer, hnext.wf.low⟩
    refine ⟨e.outBytes ++ bytes, codes ++ (List.replicate k false ++ (headWord fmt two ++ bits)),
      g.nextTwoDim, pad, ?_, .cons ?_ habove ?_ hcodes ?_ hcoded, ?_⟩
    · exact bind_eq_ok.mpr ⟨_, hcall, bind_eq_ok.mpr ⟨_, hpage, rfl⟩⟩
    · rw [← hg.format, EncInst.nextTwoDim]
      cases g.wOutFmt <;> simp [FaxFormat.Has]
    · exact fun i hi => (withSentinel_pix hn hbuf i hi).trans (hpix i hi)
    · exact fun h => hk (hg.format.trans h)
    · have hpending : e.xform.pending = g₁.pending := by rw [hx]; rfl
      rw [bitsOf_append, hbits, hpending, houtBytes, ← List.append_assoc, ← EncInst.bits, hput,
        ← hg.format]
      simp only [EncInst.bits, bitsOf_nil, List.nil_append, List.append_assoc]
      rfl

/-! ## What is read -/

/-- What a call reports. -/
inductive PageEvent
  | row (bytes : List UInt8)
  | error
  | page
  deriving DecidableEq

def Decoded.events (d : Decoded) : List PageEvent :=
  (if d.inputError then [.error] else []) ++
    ((if d.producedRow then [.row (d.outBuf.take d.outUsed)] else []) ++
      if d.newOutputPage then [.page] else [])

/-- Calls with what is left of the page, in one output buffer, until `IP_DONE`. -/
def decodePage : Nat → DecInst → List UInt8 → List UInt8 → Except Fault (List PageEvent)
  | 0, _, _, _ => .error .rounds
  | rounds + 1, g, page, out => do
    let d ← faxDecodeConvert g page out
    if d.done then .ok d.events
    else do
      let events ← decodePage rounds d.xform (page.drop d.inUsed) d.outBuf
      .ok (d.events ++ events)

/-- Enough calls report the events. -/
def Reads (g : DecInst) (page out : List UInt8) (events : List PageEvent) : Prop :=
  ∃ least, ∀ rounds, least ≤ rounds → decodePage rounds g page out = .ok events

/-- The decoder with an input buffer. -/
def DecInst.given (g : DecInst) (page : List UInt8) : DecInst :=
  { g with gb := { g.gb with unread := page } }

section Calls

variable {d d₁ d₂ : DecInst} {page out out₁ : List UInt8} {events : List PageEvent} {ret : Ret}
  {newPage : Bool}

theorem reads_done (hcnt : d.gb.cacheCnt = 0) : Reads d [] out [] := by
  refine ⟨1, fun rounds hrounds => ?_⟩
  obtain ⟨rounds, rfl⟩ := Nat.exists_eq_add_of_le' hrounds
  rw [decodePage, faxDecodeConvert, if_pos ⟨rfl, by omega⟩]
  rfl

theorem Reads.step (htoss : d.tossEverything = false) (hmore : 13 ≤ (d.given page).gb.avail.length)
    (hstep : decodeStep (d.given page) out = .ok (ret, d₁, out₁)) (herr : ret.inputError = false)
    (hafter : afterEol (afterFill (afterRow d₁ ret out₁) ret) ret = .ok (newPage, d₂))
    (hsuffix : d₂.gb.unread <:+ page)
    (hnext : ∀ inPos outPos, Reads { d₂ with dwInNextPos := inPos, dwOutNextPos := outPos }
      d₂.gb.unread out₁ events) :
    Reads d page out ((if ret.producedRow then [.row (out₁.take d₂.bytesInRow)] else []) ++
      ((if newPage then [.page] else []) ++ events)) := by
  have hmore : ¬ (page.length = 0 ∧ d.gb.cacheCnt < 13) := by
    rw [Gb.avail_length] at hmore
    intro hdone
    have : 13 ≤ d.gb.cacheCnt + 8 * page.length := hmore
    omega
  have hcall : ∃ e, faxDecodeConvert d page out = .ok e ∧ e.done = false ∧ e.inputError = false ∧
      e.producedRow = ret.producedRow ∧ e.newOutputPage = newPage ∧
      e.inUsed = page.length - d₂.gb.unread.length ∧
      e.outUsed = (if ret.producedRow then d₂.bytesInRow else 0) ∧ e.outBuf = out₁ ∧
      ∃ inPos outPos, e.xform = { d₂ with dwInNextPos := inPos, dwOutNextPos := outPos } := by
    rw [faxDecodeConvert, if_neg hmore, if_neg (Bool.eq_false_iff.mp htoss)]
    rw [← afterError_of_ok herr (g := d₁)] at hafter
    exact ⟨_, bind_eq_ok.mpr ⟨(ret, d₁, out₁), hstep, bind_eq_ok.mpr ⟨(newPage, d₂), hafter,
      rfl⟩⟩, rfl, herr, rfl, rfl, rfl, rfl, rfl, _, _, rfl⟩
  obtain ⟨e, hcall, hdone, herr, hrow, hpage, hused, houtUsed, hbuf, inPos, outPos, hx⟩ := hcall
  have hleft : page.drop e.inUsed = d₂.gb.unread := by
    obtain ⟨front, rfl⟩ := hsuffix
    rw [hused, List.length_append, Nat.add_sub_cancel, List.drop_left]
  obtain ⟨least, hread⟩ := hnext inPos outPos
  refine ⟨least + 1, fun rounds hrounds => ?_⟩
  obtain ⟨rounds, rfl⟩ := Nat.exists_eq_add_of_le' (Nat.le_of_add_left_le hrounds)
  rw [decodePage, hcall, ok_bind, if_neg (Bool.eq_false_iff.mp hdone), hx, hleft, hbuf,
    hread rounds (by omega), ok_bind, Decoded.events, herr, hrow, hpage, houtUsed, hbuf]
  cases ret.producedRow <;> simp

/-- A decoder between rows, below the row `ref`. -/
structure Holds (fmt : FaxFormat) (w : Nat) (ref : Nat → Bool) (d : DecInst) : Prop where
  rowLen : d.rowLen = w
  bytes : d.bytesInRow = (w + 7) / 8
  prior : (w + 7) / 8 < d.priorP.length
  format : d.inputFormat = fmt
  toss : d.tossEverything = false
  above : ∀ i < w, pix d.priorP i = ref i
  wf : d.gb.Wf

/-- The same behind the EOL, and the tag, of a row. -/
structure AtRow (fmt : FaxFormat) (w : Nat) (ref : Nat → Bool) (two : Bool) (eols : Nat)
    (bits : List Bool) (d : DecInst) : Prop where
  holds : Holds fmt w ref d
  init : decodeRowInit d = d
  going : d.flushingToEol = false
  twoDim : d.twoDim = two
  valid : two = true → fmt ≠ .mmr → d.refRowInvalid = false
  eols : d.numEols = eols
  avail : d.gb.avail = bits

/-- The same before them. -/
structure AtEol (fmt : FaxFormat) (w : Nat) (ref : Nat → Bool) (two : Bool) (bits : List Bool)
    (d : DecInst) : Prop where
  holds : Holds fmt w ref d
  flushing : d.flushingToEol = true
  twoDim : fmt ≠ .mr → d.twoDim = two
  valid : d.refRowInvalid = false
  eols : d.numEols = 0
  seen : d.gotFill = true ∨ d.gb.cacheCnt = 0
  next : skipToEol (d.gb.zeroesSeen d.gotFill) d.gb.avail = some (tagWord fmt two ++ bits)

theorem AtRow.starts {eols : Nat} (h : AtRow fmt w ref two eols bits d) : StartsRow w d :=
  ⟨h.holds.rowLen, h.holds.bytes, h.holds.prior, by rw [← h.init]; rfl, by rw [← h.init]; rfl,
    by rw [← h.init]; rfl, by rw [← h.init]; rfl, h.holds.wf⟩

theorem Holds.moved (h : Holds fmt w ref d) (inPos outPos : UInt32) :
    Holds fmt w ref { d with dwInNextPos := inPos, dwOutNextPos := outPos } :=
  ⟨h.rowLen, h.bytes, h.prior, h.format, h.toss, h.above, h.wf⟩

theorem AtRow.moved {eols : Nat} (h : AtRow fmt w ref two eols bits d) (inPos outPos : UInt32) :
    AtRow fmt w ref two eols bits { d with dwInNextPos := inPos, dwOutNextPos := outPos } :=
  ⟨h.holds.moved inPos outPos,
    congrArg (fun d : DecInst => { d with dwInNextPos := inPos, dwOutNextPos := outPos }) h.init,
    h.going, h.twoDim, h.valid, h.eols, h.avail⟩

/-! ### The EOL before a row -/

theorem readTag_reads (hfmt : d.inputFormat = fmt) (hwf : d.gb.Wf)
    (hleave : fmt = .mr → 0 < d.gb.cacheCnt) (havail : d.gb.avail = tagWord fmt two ++ bits)
    (htwo : fmt ≠ .mr → d.twoDim = two) :
    ∃ b, readTag d = .ok { d with twoDim := two, gb := b } ∧ Parses d.gb b bits := by
  by_cases hmr : fmt = .mr
  · subst hmr
    have hleave := hleave rfl
    obtain ⟨hadvance, hwf'⟩ := advance_spec hleave hwf
    refine ⟨d.gb.advance 1, ?_, ?_, hwf', rfl, List.suffix_refl _⟩
    · rw [readTag_mr hfmt, load_spec hleave, ok_bind, havail]
      cases two <;> rfl
    · rw [hadvance, havail]
      rfl
  · refine ⟨d.gb, ?_, ?_, hwf, rfl, List.suffix_refl _⟩
    · rw [readTag_of_ne (hfmt ▸ hmr), ← htwo hmr]
    · rw [havail, tagWord, if_neg hmr]
      rfl

/-- Behind an EOL comes a row, -/
theorem afterEol_row (ret : Ret) (h : Holds fmt w ref d) (hhit : ret.hitEol = true)
    (hleave : fmt = .mr → 0 < d.gb.cacheCnt) (havail : d.gb.avail = tagWord fmt two ++ bits)
    (htwo : fmt ≠ .mr → d.twoDim = two)
    (hvalid : two = true → fmt ≠ .mmr → d.refRowInvalid = false)
    (heols : d.numEols + 1 < eolsForPage fmt) :
    ∃ d₂, afterEol d ret = .ok (false, d₂) ∧ d₂.gb.unread <:+ d.gb.unread ∧
      AtRow fmt w ref two (d.numEols + 1) bits d₂ := by
  obtain ⟨b, htag, hparses⟩ := readTag_reads h.format h.wf hleave havail htwo
  rw [afterEol, if_pos hhit, htag, ok_bind]
  dsimp only
  rw [if_neg (by show ¬ eolsForPage d.inputFormat ≤ d.numEols + 1; rw [h.format]; omega)]
  exact ⟨_, rfl, hparses.suffix, ⟨h.rowLen, h.bytes, h.prior, h.format, h.toss, h.above,
    hparses.wf⟩, rfl, rfl, rfl, hvalid, rfl, hparses.avail⟩

/-- or it was the last one of the page. -/
theorem afterEol_page (ret : Ret) (h : Holds fmt w ref d) (hhit : ret.hitEol = true)
    (hleave : fmt = .mr → 0 < d.gb.cacheCnt) (havail : d.gb.avail = tagWord fmt two ++ bits)
    (htwo : fmt ≠ .mr → d.twoDim = two) (heols : eolsForPage fmt ≤ d.numEols + 1) :
    ∃ d₂, afterEol d ret = .ok (true, d₂) ∧ d₂.gb.unread = [] ∧ d₂.gb.cacheCnt = 0 := by
  obtain ⟨b, htag, -⟩ := readTag_reads h.format h.wf hleave havail htwo
  rw [afterEol, if_pos hhit, htag, ok_bind]
  dsimp only
  rw [if_pos (by show eolsForPage d.inputFormat ≤ d.numEols + 1; rw [h.format]; exact heols)]
  exact ⟨_, rfl, rfl, rfl⟩

theorem eolWord_eq : eolWord = List.replicate 11 false ++ [true] := rfl

theorem skipToEol_length {z : Nat} {l : List Bool} (h : skipToEol z l = some rest) :
    rest.length < l.length := by
  induction l generalizing z with
  | nil => cases h
  | cons bit l ih =>
    cases bit with
    | true =>
      rw [skipToEol] at h
      split_ifs at h
      · cases h
        exact Nat.lt_succ_self _
      · exact (ih h).trans (Nat.lt_succ_self _)
    | false => exact (ih h).trans (Nat.lt_succ_self _)

theorem bitsFlushToEol_found {b : Gb} {gotFill : Bool} (leaveABit : Bool) (hwf : b.Wf)
    (h : skipToEol (b.zeroesSeen gotFill) b.avail = some rest) (hrest : rest ≠ [])
    (hseen : gotFill = true ∨ b.cacheCnt = 0) :
    ∃ b', bitsFlushToEol b gotFill leaveABit = .ok (true, b') ∧ b'.avail = rest ∧ b'.Wf ∧
      b'.unread <:+ b.unread ∧ (leaveABit = true → 0 < b'.cacheCnt) := by
  obtain ⟨r, b', hrun, hflush⟩ := bitsFlushToEol_spec gotFill leaveABit hwf
  cases hflush with
  | found hfound _ hleave hwf' _ hsuffix =>
    exact ⟨b', hrun, Option.some.inj (hfound.symm.trans h), hwf', hsuffix, hleave⟩
  | short hshort hunread hcnt =>
    -- one bit at most is left, and not what is behind an EOL
    exfalso
    have hleft := hshort []
    rw [List.append_nil, List.append_nil, h] at hleft
    have hlen := skipToEol_length hleft.symm
    rw [Gb.avail_length, hunread, List.length_nil] at hlen
    have := List.length_pos_iff.mpr hrest
    rcases hcnt with hcnt | ⟨hfill, hcnt⟩
    · omega
    · rcases hseen with hfill' | hzero
      · rw [hfill] at hfill'
        cases hfill'
      · omega

/-- A call that looks for the EOL. -/
theorem AtEol.reads (two : Bool) (bits : List Bool)
    (h : AtEol fmt w ref two bits (d.given page)) (hfmt : fmt ≠ .mmr)
    (hlong : 13 ≤ bits.length)
    (hnext : ∀ d₂, AtRow fmt w ref two 1 bits d₂ → Reads d₂ d₂.gb.unread out events) :
    Reads d page out events := by
  have hrest : tagWord fmt two ++ bits ≠ [] := by
    rintro hnil
    rw [(List.append_eq_nil_iff.mp hnil).2] at hlong
    exact absurd hlong (by decide)
  obtain ⟨b, hflush, havail, hwf, hsuffix, hleave⟩ :=
    bitsFlushToEol_found (fmt = .mr) h.holds.wf h.next hrest h.seen
  have hmore := skipToEol_length h.next
  rw [List.length_append] at hmore
  have hholds : Holds fmt w ref { d.given page with gb := b } :=
    ⟨h.holds.rowLen, h.holds.bytes, h.holds.prior, h.holds.format, h.holds.toss, h.holds.above,
      hwf⟩
  have heols : (d.given page).numEols + 1 < eolsForPage fmt := by
    rw [h.eols]
    cases fmt with
    | mmr => exact absurd rfl hfmt
    | mh => decide
    | mr => decide
  obtain ⟨d₂, hafter, hsuffix₂, hat⟩ := afterEol_row ⟨false, false, true, false⟩ hholds
    rfl (fun hmr => hleave (decide_eq_true hmr)) havail h.twoDim (fun _ _ => h.valid) heols
  have hstep : decodeStep (d.given page) out
      = .ok (⟨false, false, true, false⟩, { d.given page with gb := b }, out) := by
    rw [decodeStep, if_pos h.flushing]
    exact bind_eq_ok.mpr ⟨(true, b), by rw [h.holds.format]; exact hflush, rfl⟩
  have heols₂ : (d.given page).numEols + 1 = 1 := by rw [h.eols]
  exact Reads.step (d := d) h.holds.toss (by omega) hstep rfl hafter (hsuffix₂.trans hsuffix)
    fun inPos outPos => hnext _ ((heols₂ ▸ hat).moved inPos outPos)

/-! ### Rows -/

/-- The decoder `d` after a row, with `rest` left. -/
structure AfterRow (fmt : FaxFormat) (w : Nat) (ref : Nat → Bool) (rest : List Bool) (ret : Ret)
    (d d₂ : DecInst) : Prop where
  holds : Holds fmt w ref d₂
  init : decodeRowInit d₂ = d₂
  parses : Parses d.gb d₂.gb rest
  leaves : ret.hitEol = true → 0 < d₂.gb.cacheCnt
  flushing : d₂.flushingToEol = d.flushingToEol
  twoDim : d₂.twoDim = d.twoDim
  eols : d₂.numEols = 0
  valid : fmt ≠ .mmr → d₂.refRowInvalid = false

theorem eq_of_bytePix {a b : UInt8} (h : ∀ i < 8, bytePix a i = bytePix b i) : a = b := by
  refine UInt8.toNat_inj.mp (Nat.eq_of_testBit_eq fun i => ?_)
  rcases Nat.lt_or_ge i 8 with hi | hi
  · have := h (7 - i) (by omega)
    rwa [bytePix, bytePix, show 7 - (7 - i) = i by omega] at this
  · have hpow := Nat.pow_le_pow_right (n := 2) (by decide) hi
    rw [Nat.testBit_lt_two_pow (Nat.lt_of_lt_of_le a.toNat_lt hpow),
      Nat.testBit_lt_two_pow (Nat.lt_of_lt_of_le b.toNat_lt hpow)]

theorem take_eq_of_pix (hn : w % 8 = 0) (hlen : row.length = w / 8) (hout : w / 8 < out.length)
    (h : ∀ i < w, pix out i = pix row i) : out.take (w / 8) = row := by
  refine List.ext_getElem (by rw [List.length_take, hlen]; omega) fun j hj hj' => ?_
  refine eq_of_bytePix fun i hi => ?_
  have := h (8 * j + i) (by omega)
  rw [pix_add out j hi, pix_add row j hi, List.getD_eq_getElem _ _ (by omega),
    List.getD_eq_getElem _ _ hj'] at this
  rwa [List.getElem_take]

theorem MadeRow.after {pic : Nat → Bool} {res : Except Fault (Ret × DecInst × List UInt8)}
    (h : MadeRow d pic w rest ret res) (hd : Holds fmt w ref d) (hrow : ret.producedRow = true)
    (hpic : ∀ i < w, pic i = pix row i) :
    ∃ d₁ out₁, res = .ok (ret, d₁, out₁) ∧ (w + 7) / 8 < out₁.length ∧
      (∀ i < w, pix out₁ i = pix row i) ∧
      AfterRow fmt w (pix row) rest ret d (afterRow d₁ ret out₁) := by
  obtain ⟨gb, pos, white, st, a, prior, invalid, out₁, hres, hparses, hleaves, hlen, hvalid, hroom,
    hmade⟩ := h
  have hbytes := hd.bytes
  have hprior := hd.prior
  have htake : (out₁.take d.bytesInRow).length = d.bytesInRow :=
    List.length_take_of_le (by omega)
  have hrows : ∀ i < w, pix out₁ i = pix row i := fun i hi => (hmade i hi).trans (hpic i hi)
  refine ⟨_, out₁, hres, hroom, hrows, ?_⟩
  rw [afterRow, if_pos hrow]
  refine ⟨⟨hd.rowLen, hd.bytes, ?_, hd.format, hd.toss, fun i hi => ?_, hparses.wf⟩, rfl, hparses,
    hleaves, rfl, rfl, rfl, fun hne => hvalid (hd.format ▸ hne)⟩
  · show (w + 7) / 8 < (copyRow prior out₁ d.bytesInRow).length
    rw [copyRow, List.length_append, htake, List.length_drop]
    omega
  · show pix (copyRow prior out₁ d.bytesInRow) i = pix row i
    have hfront : ∀ l : List UInt8, pix (l.take d.bytesInRow) i = pix l i :=
      fun l => pix_take (by omega)
    rw [← hrows i hi, ← hfront, ← hfront out₁, copyRow, List.take_left' htake]

theorem MadeRow.reads {pic : Nat → Bool}
    (h : MadeRow (d.given page) pic w rest ret (decodeStep (d.given page) out))
    (hd : Holds fmt w ref (d.given page)) (hn : w % 8 = 0) (hlen : row.length = w / 8)
    (hpic : ∀ i < w, pic i = pix row i) (hrow : ret.producedRow = true)
    (herr : ret.inputError = false) (hmore : 13 ≤ (d.given page).gb.avail.length)
    (hnext : ∀ d₂ out₁, AfterRow fmt w (pix row) rest ret (d.given page) d₂ →
      (w + 7) / 8 < out₁.length →
      ∃ d₃, afterEol (afterFill d₂ ret) ret = .ok (false, d₃) ∧ d₃.gb.unread <:+ d₂.gb.unread ∧
        d₃.bytesInRow = (w + 7) / 8 ∧ ∀ inPos outPos,
          Reads { d₃ with dwInNextPos := inPos, dwOutNextPos := outPos } d₃.gb.unread out₁ events) :
    Reads d page out (.row row :: events) := by
  obtain ⟨d₁, out₁, hstep, hroom, hpix, hafter⟩ := h.after hd hrow hpic
  obtain ⟨d₃, heol, hsuffix, hbytes, hread⟩ := hnext _ out₁ hafter hroom
  have hreads :=
    Reads.step (d := d) hd.toss hmore hstep herr heol (hsuffix.trans hafter.parses.suffix) hread
  rwa [hrow, if_pos rfl, if_neg Bool.false_ne_true, hbytes, show (w + 7) / 8 = w / 8 by omega,
    take_eq_of_pix hn hlen (by omega) hpix] at hreads

/-! ### The end of a page -/

/-- Where a row could begin there is an EOL. -/
theorem AtRow.noRow {eols : Nat} (h : AtRow fmt w ref two eols (eolWord ++ rest) d)
    (htwo : two = true → fmt = .mmr) (hrest : rest ≠ []) (hout : (w + 7) / 8 < out.length) :
    ∃ d₁ out₁, decodeStep d out = .ok (⟨false, false, true, false⟩, d₁, out₁) ∧
      (w + 7) / 8 < out₁.length ∧ Parses d.gb d₁.gb rest ∧ 0 < d₁.gb.cacheCnt ∧
      d₁.twoDim = two ∧ d₁.numEols = eols ∧ Holds fmt w ref d₁ := by
  have hstarts := h.starts
  obtain ⟨hrow, hbytes, hprior, hformat, htoss, habove, hwf⟩ := h.holds
  have hwhite : ShowsPen w (whiteRow d out) .atStart :=
    whiteRow_shows hbytes hout (fun _ _ => rfl) rfl
  rw [decodeStep, if_neg (Bool.eq_false_iff.mp h.going), h.twoDim]
  cases two with
  | false =>
    obtain ⟨b, hparse, hparses, hleave⟩ := EndWord.eol.parseCode _ (.inr rfl) hwf h.avail hrest
    rw [if_neg Bool.false_ne_true, decodeRow1d, if_pos hstarts.pixelPos, Gb.rounds, decodeRuns]
    dsimp only
    rw [hparse, ok_bind]
    dsimp only
    rw [unusual1d, unusual1d.atEol, if_pos (by exact hstarts.pixelPos)]
    exact ⟨_, _, rfl, hwhite.1, hparses, hleave rfl, h.twoDim, h.eols, hrow, hbytes, hprior,
      hformat, htoss, habove, hparses.wf⟩
  | true =>
    obtain ⟨b, hparse, hparses, hleave⟩ :=
      EndWord.eol.parseCode true (.inl rfl) hwf h.avail hrest
    have hlt : d.bytesInRow < d.priorP.length := by omega
    have htbl : nextTable { d with priorP := d.priorP.set d.bytesInRow 0x55 } = .inr vertTable := by
      rw [nextTable]
      dsimp only
      rw [hstarts.state2d]
      exact if_neg (by rw [hstarts.a0]; omega)
    rw [if_pos rfl, decodeRow2d, if_pos (by rw [hstarts.a0]; decide), store_returns _ hlt, ok_bind,
      Gb.rounds, decodeModes, htbl]
    dsimp only
    rw [hparse, ok_bind]
    dsimp only
    rw [unusual2d, atEol2d_mmr (by exact hformat.trans (htwo rfl)),
      show decide (0 ≤ d.a0) = false by rw [hstarts.a0]; rfl]
    refine ⟨_, _, rfl, hwhite.1, hparses, hleave rfl, h.twoDim, h.eols, hrow, hbytes, ?_, hformat,
      htoss, fun i hi => ?_, hparses.wf⟩
    · exact hprior.trans_eq List.length_set.symm
    · show pix (d.priorP.set d.bytesInRow 0x55) i = ref i
      rw [pix_set hlt, if_neg (by omega)]
      exact habove i hi

theorem AtRow.eol {eols : Nat}
    (h : AtRow fmt w ref two eols (eolWord ++ (tagWord fmt two ++ bits)) (d.given page))
    (htwo : two = true → fmt = .mmr) (hbits : bits ≠ []) (hout : (w + 7) / 8 < out.length)
    (heols : eols + 1 < eolsForPage fmt)
    (hnext : ∀ d₂ out₁, AtRow fmt w ref two (eols + 1) bits d₂ → (w + 7) / 8 < out₁.length →
      Reads d₂ d₂.gb.unread out₁ events) : Reads d page out events := by
  have hrest : tagWord fmt two ++ bits ≠ [] := fun hnil => hbits (List.append_eq_nil_iff.mp hnil).2
  obtain ⟨d₁, out₁, hstep, hroom, hparses, hleave, htwoDim, hcount, hholds⟩ :=
    h.noRow htwo hrest hout
  obtain ⟨d₂, hafter, hsuffix, hat⟩ := afterEol_row ⟨false, false, true, false⟩ hholds rfl
    (fun _ => hleave) hparses.avail (fun _ => htwoDim)
    (fun htrue hne => absurd (htwo htrue) hne) (by rw [hcount]; exact heols)
  rw [hcount] at hat
  exact Reads.step (d := d) h.holds.toss (by rw [h.avail]; exact EndWord.eol.long hrest) hstep rfl
    hafter (hsuffix.trans hparses.suffix)
    fun inPos outPos => hnext _ _ (hat.moved inPos outPos) hroom

theorem AtRow.lastEol {eols : Nat} (bits : List Bool)
    (h : AtRow fmt w ref two eols (eolWord ++ (tagWord fmt two ++ bits)) (d.given page))
    (htwo : two = true → fmt = .mmr) (hbits : bits ≠ []) (hout : (w + 7) / 8 < out.length)
    (heols : eolsForPage fmt ≤ eols + 1) : Reads d page out [.page] := by
  have hrest : tagWord fmt two ++ bits ≠ [] := fun hnil => hbits (List.append_eq_nil_iff.mp hnil).2
  obtain ⟨d₁, out₁, hstep, hroom, hparses, hleave, htwoDim, hcount, hholds⟩ :=
    h.noRow htwo hrest hout
  obtain ⟨d₂, hafter, hunread, hcnt⟩ := afterEol_page ⟨false, false, true, false⟩ hholds
    rfl (fun _ => hleave) hparses.avail (fun _ => htwoDim) (by rw [hcount]; exact heols)
  exact Reads.step (d := d) h.holds.toss (by rw [h.avail]; exact EndWord.eol.long hrest) hstep rfl
    hafter (hunread ▸ List.nil_suffix) fun inPos outPos => hunread ▸ reads_done hcnt

theorem Coded.long (h : Coded fmt n tail ref rows two bits) : tail.length ≤ bits.length := by
  induction h with
  | nil => exact Nat.le_refl _
  | cons _ _ _ _ _ _ ih =>
    simp only [List.length_append]
    omega

theorem Coded.has (h : Coded fmt n tail ref rows two bits) : fmt.Has two := by
  cases h with
  | nil => cases fmt <;> simp [FaxFormat.Has]
  | cons htwo => exact htwo

theorem tailWord_long (fmt : FaxFormat) : 24 ≤ (tailWord fmt).length := by
  cases fmt <;> decide

theorem tailWord_of_ne (h : fmt ≠ .mmr) :
    ∃ l, tailWord fmt = eolWord ++ (tagWord fmt false ++ (eolWord ++ (tagWord fmt false ++ l))) ∧
      l ≠ [] := by
  refine ⟨(List.replicate 3 (eolWord ++ tagWord fmt false)).flatten, ?_, ?_⟩
  · rw [tailWord, if_neg h]
    simp [List.replicate_succ]
  · cases fmt <;> decide

theorem AfterRow.atRow (h : AfterRow fmt w ref rest ret d d₂) (hgoing : d.flushingToEol = false)
    (htwo : d.twoDim = two) : AtRow fmt w ref two 0 rest d₂ :=
  ⟨h.holds, h.init, h.flushing.trans hgoing, h.twoDim.trans htwo, fun _ => h.valid, h.eols,
    h.parses.avail⟩

/-- A row of MH or MR data is made, up to what ends it. -/
theorem RowCodes.made {above pic : Nat → Bool} {eols : Nat} {word : List Bool} {stop : Code}
    (hcodes : RowCodes above pic w two codes) (hend : EndWord word stop ret)
    (hat : AtRow fmt w ref two eols (codes ++ (word ++ rest)) d) (hfmt : fmt ≠ .mmr) (hpos : 0 < w)
    (hw : w < 2 ^ 31) (habove : ∀ i < w, above i = ref i) (hrest : rest ≠ [])
    (hout : (w + 7) / 8 < out.length) : MadeRow d pic w rest ret (decodeStep d out) := by
  rw [decodeStep, if_neg (Bool.eq_false_iff.mp hat.going), hat.twoDim]
  cases hcodes with
  | runs hrs => exact decodeRow1d_made hend hat.starts hpos hw hout hrs hat.avail hrest
  | modes hms =>
    exact decodeRow2d_mr hend hat.starts hw (by rw [hat.holds.format]; exact hfmt)
      (hat.valid rfl hfmt) hout (fun i hi => (hat.holds.above i hi).trans (habove i hi).symm) hms
      hat.avail hrest

/-- **A page is read as its rows were coded.** -/
theorem Coded.reads {pad : Nat} (hn : w % 8 = 0) (hpos : 0 < w) (hw : w < 2 ^ 31)
    (hcoded : Coded fmt w (tailWord fmt ++ List.replicate pad false) ref rows two bits)
    (hrows : ∀ row ∈ rows, row.length = w / 8)
    (hat : AtRow fmt w ref two (if fmt = .mmr then 0 else 1) bits (d.given page))
    (hout : (w + 7) / 8 < out.length) : Reads d page out (rows.map .row ++ [.page]) := by
  induction hcoded generalizing d page out with
  | nil =>
    have htwo : decide (fmt = .mmr) = true → fmt = .mmr := of_decide_eq_true
    by_cases hmmr : fmt = .mmr
    · subst hmmr
      rw [show tailWord .mmr = eolWord ++ eolWord from rfl, List.append_assoc] at hat
      exact hat.lastEol (eolWord ++ List.replicate pad false) htwo
        (List.append_ne_nil_of_left_ne_nil (by decide) _) hout (Nat.le_refl 1)
    · obtain ⟨l, htail, hl⟩ := tailWord_of_ne hmmr
      have hl : l ++ List.replicate pad false ≠ [] := List.append_ne_nil_of_left_ne_nil hl _
      have heols : eolsForPage fmt = 3 := by
        cases fmt with
        | mmr => exact absurd rfl hmmr
        | mh => rfl
        | mr => rfl
      rw [htail, if_neg hmmr, decide_eq_false hmmr] at hat
      simp only [List.append_assoc] at hat
      refine hat.eol (by rintro ⟨⟩) (List.append_ne_nil_of_left_ne_nil (by decide) _) hout
        (by rw [heols]; decide) fun d₂ out₁ hat₂ hroom => ?_
      exact AtRow.lastEol (d := d₂) _ hat₂ (by rintro ⟨⟩) hl hroom heols.le
  | @cons ref above pic row rows two two' codes bits k htwo habove hpic hcodes hfill hcoded ih =>
    have hlen := hrows row List.mem_cons_self
    have hlong : 24 ≤ bits.length := by
      have := hcoded.long
      have := tailWord_long fmt
      rw [List.length_append] at *
      omega
    have hmore : 13 ≤ (d.given page).gb.avail.length := by
      rw [hat.avail]
      simp only [List.length_append]
      omega
    have hnext := fun {d page out} =>
      @ih d page out fun row h => hrows row (List.mem_cons_of_mem _ h)
    by_cases hmmr : fmt = .mmr
    · -- the row ends with its codes
      obtain rfl := htwo.2 hmmr
      obtain rfl := hfill hmmr
      subst hmmr
      rw [List.replicate_zero, List.nil_append, headWord_mmr, List.nil_append] at hat
      have hmade : MadeRow (d.given page) pic w bits ⟨true, false, false, false⟩
          (decodeStep (d.given page) out) := by
        cases hcodes with
        | modes hms =>
          rw [decodeStep, if_neg (Bool.eq_false_iff.mp hat.going), hat.twoDim]
          exact decodeRow2d_mmr hat.starts hw hat.holds.format hout
            (fun i hi => (hat.holds.above i hi).trans (habove i hi).symm) hms hat.avail (by omega)
      refine hmade.reads hat.holds hn hlen hpic rfl rfl hmore fun d₂ out₁ hafter hroom =>
        ⟨d₂, rfl, List.suffix_refl _, hafter.holds.bytes, fun inPos outPos => hnext ?_ hroom⟩
      have hat₂ := (hafter.atRow hat.going hat.twoDim).moved inPos outPos
      rw [hcoded.has.2 rfl]
      exact hat₂
    · -- an EOL ends the row, or fill before it
      have hhead : headWord fmt two' = eolWord ++ tagWord fmt two' := if_neg hmmr
      have hrest : tagWord fmt two' ++ bits ≠ [] := by
        refine List.append_ne_nil_of_right_ne_nil _ ?_
        rintro rfl
        exact absurd hlong (by decide)
      have htwoDim : fmt ≠ .mr → two = two' := by
        cases fmt with
        | mmr => exact absurd rfl hmmr
        | mr => exact fun hne => absurd rfl hne
        | mh => exact fun _ => (htwo.1 rfl).trans (hcoded.has.1 rfl).symm
      rw [hhead, List.append_assoc] at hat
      rw [if_neg hmmr] at hnext
      cases k with
      | zero =>
        rw [List.replicate_zero, List.nil_append] at hat
        have hmade := hcodes.made .eol hat hmmr hpos hw habove hrest hout
        refine hmade.reads hat.holds hn hlen hpic rfl rfl hmore fun d₂ out₁ hafter hroom => ?_
        obtain ⟨d₃, heol, hsuffix, hat₃⟩ := afterEol_row ⟨true, false, true, false⟩
          hafter.holds rfl (fun _ => hafter.leaves rfl) hafter.parses.avail
          (fun hne => hafter.twoDim.trans (hat.twoDim.trans (htwoDim hne)))
          (fun _ => hafter.valid) (by
            rw [hafter.eols]
            cases fmt with
            | mmr => exact absurd rfl hmmr
            | mh => decide
            | mr => decide)
        rw [hafter.eols] at hat₃
        exact ⟨d₃, heol, hsuffix, hat₃.holds.bytes,
          fun inPos outPos => hnext (hat₃.moved inPos outPos) hroom⟩
      | succ k =>
        have hzeroes : List.replicate (k + 1) false ++ (eolWord ++ (tagWord fmt two' ++ bits))
            = List.replicate 12 false ++
              (List.replicate k false ++ (true :: (tagWord fmt two' ++ bits))) := by
          rw [eolWord_eq, List.append_assoc, ← List.append_assoc, List.replicate_append_replicate,
            show k + 1 + 11 = 12 + k by omega, ← List.replicate_append_replicate,
            List.append_assoc]
          rfl
        rw [hzeroes] at hat
        have hmade := hcodes.made .fill hat hmmr hpos hw habove
          (List.append_ne_nil_of_right_ne_nil _ (List.cons_ne_nil _ _)) hout
        refine hmade.reads hat.holds hn hlen hpic rfl rfl hmore fun d₂ out₁ hafter hroom => ?_
        refine ⟨{ d₂ with flushingToEol := true, gotFill := true }, rfl, List.suffix_refl _,
          hafter.holds.bytes, fun inPos outPos => ?_⟩
        obtain ⟨hrow, hbytes, hprior, hformat, htoss, habove₂, hwf⟩ := hafter.holds
        refine AtEol.reads two' bits
          ⟨⟨hrow, hbytes, hprior, hformat, htoss, habove₂, hwf⟩, rfl,
            fun hne => hafter.twoDim.trans (hat.twoDim.trans (htwoDim hne)), hafter.valid hmmr,
            hafter.eols, .inl rfl, ?_⟩ hmmr (by omega) fun d₃ hat₃ => hnext hat₃ hroom
        show skipToEol 11 d₂.gb.avail = _
        rw [hafter.parses.avail, skipToEol_replicate, skipToEol_true_of_ge (by omega)]

end Calls

/-! ## The page -/

theorem pix_zeroes {m : Nat} {behind : List UInt8} {i : Nat} (hi : i < 8 * m) :
    pix (List.replicate m 0 ++ behind) i = false := by
  rw [pix, List.getD_eq_getElem _ _ (by rw [List.length_append, List.length_replicate]; omega),
    List.getElem_append_left (by rw [List.length_replicate]; omega), List.getElem_replicate]
  exact Nat.zero_testBit _

/-- **A fax page is read back.** In each of the formats, for rows of whole bytes, with any minimum
row length and vertical resolution: the bytes of all calls of the encoder and of its flush, given
to an opened decoder until it is done, are reported as the same rows in their order and then one
page, and no error. -/
theorem encodePage_read_back (fmt : FaxFormat) (wMinBits : Nat) (lVertDPI : Int) (outAvail : Nat)
    (rows : List (List UInt8)) (behind prior prior' out : List UInt8) (hn : n % 8 = 0)
    (hpos : 0 < n) (hlt : n + 7 < 2 ^ 31) (hrows : ∀ row ∈ rows, row.length = n / 8)
    (hbehind : behind ≠ []) (havail : outAvail ≠ 0) (hprior : prior ≠ []) (hprior' : prior' ≠ [])
    (hout : n / 8 < out.length) :
    ∃ bytes d, encodePage outAvail behind rows
        (faxEncodeGetActualTraits (faxEncodeOpenXform fmt wMinBits) n lVertDPI prior)
        = .ok (.returned bytes) ∧
      faxDecodeGetActualTraits (faxDecodeOpenXform fmt) n prior' = .returned d ∧
      Reads d bytes out (rows.map .row ++ [.page]) := by
  have hzeroes : ∀ behind : List UInt8, behind ≠ [] →
      (n + 7) / 8 < (List.replicate ((n + 7) / 8) 0 ++ behind).length ∧
        ∀ i < n, pix (List.replicate ((n + 7) / 8) 0 ++ behind) i = false := by
    intro behind hne
    have := List.length_pos_iff.mpr hne
    refine ⟨?_, fun i hi => pix_zeroes (by omega)⟩
    rw [List.length_append, List.length_replicate]
    omega
  have hencodes : Encodes (faxEncodeGetActualTraits (faxEncodeOpenXform fmt wMinBits) n lVertDPI
      prior) fmt n fun _ => false := by
    refine ⟨⟨Nat.le_refl 32, Nat.two_pow_pos 32, fun i _ => Nat.zero_testBit i⟩, rfl, rfl,
      fun hne => ?_, fun _ => rfl⟩
    obtain ⟨hlen, hpix⟩ := hzeroes prior hprior
    exact ⟨_, if_neg hne, by omega, hpix⟩
  obtain ⟨bytes, bits, two, pad, hpage, hcoded, hbits⟩ :=
    encodePage_coded hn hpos hrows hbehind havail hencodes
  rw [EncInst.pending_of_full rfl, List.nil_append] at hbits
  obtain ⟨d, hd⟩ : ∃ d, faxDecodeGetActualTraits (faxDecodeOpenXform fmt) n prior'
      = .returned d := by
    rw [faxDecodeGetActualTraits, if_neg (by rw [int32_self (by omega) (by omega)]; omega)]
    exact ⟨_, rfl⟩
  refine ⟨bytes, d, hpage, hd, ?_⟩
  rw [faxDecodeGetActualTraits, if_neg (by rw [int32_self (by omega) (by omega)]; omega)] at hd
  cases hd
  obtain ⟨hlen, hpix⟩ := hzeroes prior' hprior'
  have hlong : 24 ≤ bits.length := by
    have := hcoded.long
    have := tailWord_long fmt
    rw [List.length_append] at *
    omega
  by_cases hmmr : fmt = .mmr
  · subst hmmr
    obtain rfl := hcoded.has.2 rfl
    refine hcoded.reads hn hpos (by omega) hrows ⟨⟨rfl, rfl, hlen, rfl, rfl, hpix,
      ⟨Nat.zero_le _, Nat.two_pow_pos 32⟩⟩, rfl, rfl, rfl, fun _ _ => rfl, rfl, hbits⟩ (by omega)
  · refine AtEol.reads two bits ⟨⟨rfl, rfl, hlen, rfl, rfl, hpix,
      ⟨Nat.zero_le _, Nat.two_pow_pos 32⟩⟩, decide_eq_true hmmr, fun hmr => ?_, rfl, rfl, .inr rfl,
      ?_⟩ hmmr (by omega) fun d₂ hat => ?_
    · show decide (fmt = .mmr) = two
      cases fmt with
      | mmr => exact absurd rfl hmmr
      | mr => exact absurd rfl hmr
      | mh => exact (hcoded.has.1 rfl).symm
    · show skipToEol 0 (bitsOf bytes) = _
      rw [hbits, headWord, if_neg hmmr, eolWord_eq, List.append_assoc, List.append_assoc,
        skipToEol_replicate]
      exact skipToEol_true_of_ge (by decide) _
    · refine hcoded.reads (d := d₂) hn hpos (by omega) hrows ?_ (by omega)
      rw [if_neg hmmr]
      exact hat

/-- Three rows of MR data: a one-dimensional one, one that moves a pixel and a white one. -/
theorem encodePage_read_back_three :
    ∃ bytes d, encodePage 100 [0] [[0x20], [0x10], [0x00]]
        (faxEncodeGetActualTraits (faxEncodeOpenXform .mr 0) 8 (100 * 2 ^ 16) [0])
        = .ok (.returned bytes) ∧
      faxDecodeGetActualTraits (faxDecodeOpenXform .mr) 8 [0] = .returned d ∧
      Reads d bytes [0, 0, 0] [.row [0x20], .row [0x10], .row [0x00], .page] :=
  encodePage_read_back (n := 8) .mr 0 (100 * 2 ^ 16) 100 [[0x20], [0x10], [0x00]] [0] [0] [0]
    [0, 0, 0] (by decide) (by decide) (by decide) (by decide) (by decide) (by decide) (by decide)
    (by decide) (by decide)

end Hplip.Ip
