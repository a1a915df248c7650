import Hplip.Ip.FaxFetch

/-!
# The bounds of the fax decoder

What the decoder is asked to set in a row comes from the stream. It relies on `set_run` to
cut a run at the end of the row, on the sentinel behind the reference row, and on checks of
`a0`.
-/

namespace Hplip.Ip

open Scan

variable {b : Gb} {g : DecInst} {s : Decoding} {out inBuf : List UInt8} {w : Nat}

/-! ## What the callees allow -/

theorem store_spec {buf : List UInt8} {i : Nat} (byte : UInt8) (h : i < buf.length) :
    ∃ buf', store buf i byte = .ok buf' ∧ buf'.length = buf.length :=
  ⟨_, store_returns byte h, List.length_set⟩

theorem setRun_returns {start : Int} (runLen : Int) (hstart : 0 ≤ start)
    (hout : (w + 7) / 8 < out.length) :
    ∃ out', setRun out start runLen w = .ok out' ∧ out'.length = out.length := by
  rw [setRun]
  dsimp only
  generalize hend : (if (w : Int) ≤ int32 (start + runLen - 1) then (w : Int) - 1
    else int32 (start + runLen - 1)) = endPos
  have hlast : endPos ≤ w - 1 := by
    rw [← hend]
    by_cases h : (w : Int) ≤ int32 (start + runLen - 1)
    · rw [if_pos h]
    · rw [if_neg h]
      lia
  rw [if_neg (Int.not_lt.mpr hstart)]
  by_cases hword : endPos / 16 = start / 16
  · -- the two bytes of a word that a pixel of the row is in
    rw [if_pos hword]
    have hi : (2 * (start / 16)).toNat + 1 ≤ (w + 7) / 8 := by lia
    rw [if_neg (Nat.not_lt.mpr hi)]
    obtain ⟨buf, hbuf, hlen⟩ := store_spec
      (out.getD (2 * (start / 16)).toNat 0 ||| (runsArray (start % 16).toNat (endPos % 16).toNat).1)
      (show (2 * (start / 16)).toNat < out.length by lia)
    obtain ⟨buf', hbuf', hlen'⟩ := store_spec
      (buf.getD ((2 * (start / 16)).toNat + 1) 0
        ||| (runsArray (start % 16).toNat (endPos % 16).toNat).2)
      (show (2 * (start / 16)).toNat + 1 < buf.length by lia)
    refine ⟨buf', ?_, hlen'.trans hlen⟩
    rw [hbuf, ok_bind]
    exact hbuf'
  · rw [if_neg hword]
    by_cases hlt : start < endPos
    · -- the last byte is one of the row
      rw [if_pos hlt]
      have hright : (endPos / 8).toNat < (w + 7) / 8 := by lia
      have hleft : (start / 8).toNat < (endPos / 8).toNat := by lia
      rw [if_neg (Nat.not_lt.mpr (Nat.le_of_lt hright))]
      obtain ⟨buf, hbuf, hlen⟩ := store_spec
        (out.getD (start / 8).toNat 0 ||| 0xFF >>> UInt8.ofNat (start % 8).toNat)
        (show (start / 8).toNat < out.length by lia)
      obtain ⟨buf', hbuf', hlen'⟩ := store_spec
        (0xFF <<< UInt8.ofNat (7 - (endPos % 8).toNat))
        (show (endPos / 8).toNat < buf.length by lia)
      refine ⟨_, bind_eq_ok.mpr ⟨buf, hbuf, bind_eq_ok.mpr ⟨buf', hbuf', rfl⟩⟩, ?_⟩
      rw [List.length_append, List.length_append, List.length_take, List.length_replicate,
        List.length_drop]
      lia
    · rw [if_neg hlt]
      exact ⟨out, rfl, rfl⟩

theorem setRunIf_returns (g : DecInst) (start : Int) (runLen : Int) (hstart : g.white = false → 0 ≤ start)
    (hout : (g.rowLen + 7) / 8 < out.length) :
    ∃ out', setRunIf g out start runLen = .ok out' ∧ out'.length = out.length := by
  rw [setRunIf]
  cases hwhite : g.white with
  | true => exact ⟨out, rfl, rfl⟩
  | false => exact setRun_returns runLen (hstart hwhite) hout

def Slack (buf : List UInt8) (n : Nat) : Prop :=
  (n + 7) / 8 < buf.length ∧ buf.getD ((n + 7) / 8) 0 = 0x55

theorem scanTo_slack {buf : List UInt8} {n : Nat} (skip : Bool) {start : Int}
    (h : Slack buf n) (hpos : 0 ≤ start) (hle : start ≤ n + 1) :
    ∃ r, scanTo skip buf start n = .ok r ∧ r ≤ n := by
  obtain ⟨k, rfl⟩ := Int.eq_ofNat_of_zero_le hpos
  obtain ⟨hlen, hbyte⟩ := h
  have hpix : ∀ i < 8, pix buf (8 * ((n + 7) / 8) + i) = bytePix 0x55 i := by
    intro i hi
    rw [pix_add _ _ hi, hbyte]
  refine ⟨next (pix buf) skip n k, ?_, next_le⟩
  cases skip with
  | false =>
    exact scanTo_returns (q := 8 * ((n + 7) / 8) + 1) (by lia) (by lia) (by lia)
      (hpix 1 (by decide))
  | true =>
    exact scanTo_returns (q := 8 * ((n + 7) / 8) + 2) (by lia) (by lia) (by lia)
      (hpix 2 (by decide))

theorem copyRow_length {dst src : List UInt8} {n : Nat} (hdst : n ≤ dst.length)
    (hsrc : n ≤ src.length) : (copyRow dst src n).length = dst.length := by
  rw [copyRow, List.length_append, List.length_take, List.length_drop]
  lia

/-! ## The invariant -/

/-- An instance for rows of `w` pixels. -/
structure DecInst.Sound (w : Nat) (g : DecInst) : Prop where
  gb : g.gb.Wf
  rowLen : g.rowLen = w
  bytes : g.bytesInRow = (w + 7) / 8
  prior : (w + 7) / 8 < g.priorP.length
  /-- In a row, the sentinel is there. -/
  sentinel : 0 ≤ g.a0 → Slack g.priorP w
  pixelPos : int32 g.pixelPos = g.pixelPos

/-- Between the codes of horizontal mode only, `a0` may be behind the row. -/
def DecInst.Inside (g : DecInst) : Prop := g.state2d = .normal2d → g.a0 ≤ g.rowLen

/-- What decoding a row, or flushing, ends in. -/
structure Ends (w : Nat) (out : List UInt8) (r : Ret × DecInst × List UInt8) : Prop where
  sound : r.2.1.Sound w
  out_length : r.2.2.length = out.length
  /-- There is a bit for the tag. -/
  leaves : r.2.1.inputFormat = .mr → r.1.hitEol = true → 0 < r.2.1.gb.cacheCnt
  inside : r.2.1.Inside ∨ r.1.producedRow = true ∨
    (r.1.inputError = true ∧ r.2.1.inputFormat = .mmr)

theorem DecInst.Sound.withGb (h : g.Sound w) {gb : Gb} (hgb : gb.Wf) :
    DecInst.Sound w { g with gb := gb } :=
  ⟨hgb, h.rowLen, h.bytes, h.prior, h.sentinel, h.pixelPos⟩

theorem repeatRow_length (h : g.Sound w) (hout : (w + 7) / 8 < out.length) :
    (repeatRow g out).length = out.length := by
  rw [repeatRow, h.bytes]
  exact copyRow_length (Nat.le_of_lt hout) (Nat.le_of_lt h.prior)

theorem whiteRow_length (h : g.Sound w) (hout : (w + 7) / 8 < out.length) :
    (whiteRow g out).length = out.length := by
  rw [whiteRow, h.bytes]
  exact copyRow_length (Nat.le_of_lt hout) (by rw [List.length_replicate])

/-! ## Two-dimensional rows -/

/-- The invariant of the loops of `decode_row_2d`. -/
structure Decoding.Sound (w : Nat) (s : Decoding) : Prop where
  g : s.g.Sound w
  slack : Slack s.g.priorP w
  out : (w + 7) / 8 < s.out.length
  b1 : s.needB0 = false → 0 ≤ s.b1 ∧ s.b1 ≤ w

theorem findB1_sound (h : s.Sound w) (ha0 : s.g.a0 ≤ w) :
    ∃ s', findB1 s = .ok s' ∧ s'.Sound w ∧ 0 ≤ s'.g.a0 ∧ 0 ≤ s'.b1 ∧ s'.b1 ≤ w ∧
      s'.out = s.out ∧ s'.g = { s.g with a0 := s'.g.a0 } := by
  have hrow := h.g.rowLen
  have hslack := h.slack
  rw [findB1]
  dsimp only
  rw [← hrow] at hslack ha0
  by_cases hneg : s.g.a0 < 0
  · rw [if_pos hneg]
    obtain ⟨b1, hb1, hle⟩ := scanTo_slack (!s.g.white) hslack (Int.le_refl 0) (by omega)
    have hb1w : (0 : Int) ≤ (b1 : Int) ∧ (b1 : Int) ≤ w := by omega
    exact ⟨_, bind_eq_ok.mpr ⟨b1, hb1, rfl⟩,
      ⟨⟨h.g.gb, hrow, h.g.bytes, h.g.prior, fun _ => h.slack, h.g.pixelPos⟩, h.slack, h.out,
        fun _ => hb1w⟩, Int.le_refl 0, hb1w.1, hb1w.2, rfl, rfl⟩
  · rw [if_neg hneg]
    cases hneed : s.needB0 with
    | true =>
      obtain ⟨b0, hb0, hle₀⟩ := scanTo_slack s.g.white hslack (Int.not_lt.mp hneg) (by omega)
      obtain ⟨b1, hb1, hle⟩ := scanTo_slack (!s.g.white) hslack
        (show (0 : Int) ≤ (b0 + 1 : Nat) by omega) (by omega)
      have hb1w : (0 : Int) ≤ (b1 : Int) ∧ (b1 : Int) ≤ w := by omega
      exact ⟨_, bind_eq_ok.mpr ⟨b0, hb0, bind_eq_ok.mpr ⟨b1, hb1, rfl⟩⟩,
        ⟨h.g, h.slack, h.out, fun _ => hb1w⟩, Int.not_lt.mp hneg, hb1w.1, hb1w.2, rfl, rfl⟩
    | false =>
      obtain ⟨hpos, hle₀⟩ := h.b1 hneed
      obtain ⟨b1, hb1, hle⟩ := scanTo_slack (!s.g.white) hslack
        (show (0 : Int) ≤ s.b1 + 1 by omega) (by omega)
      have hb1w : (0 : Int) ≤ (b1 : Int) ∧ (b1 : Int) ≤ w := by omega
      exact ⟨_, bind_eq_ok.mpr ⟨b1, hb1, rfl⟩, ⟨h.g, h.slack, h.out, fun _ => hb1w⟩,
        Int.not_lt.mp hneg, hb1w.1, hb1w.2, rfl, rfl⟩

/-- What a code comes to: the loops go on with their invariant, or the row is corrupt. -/
structure Decodes (w : Nat) (s : Decoding) (r : Bool × Decoding) : Prop where
  sound : r.2.Sound w
  gb : r.2.g.gb = s.g.gb
  out_length : r.2.out.length = s.out.length
  inside : r.1 = true → r.2.g.Inside

theorem verticalMode_sound (h : s.Sound w) (ha0 : 0 ≤ s.g.a0) (hb1 : 0 ≤ s.b1 ∧ s.b1 ≤ w)
    (iAction : Int) : ∃ r, verticalMode s iAction = .ok r ∧ Decodes w s r := by
  rw [verticalMode]
  have hout := h.out
  rw [← h.g.rowLen] at hout
  obtain ⟨out', hrun, hlen⟩ := setRunIf_returns s.g s.g.a0 (s.b1 + iAction - s.g.a0) (fun _ => ha0) hout
  rw [hrun, ok_bind]
  have hout' : (w + 7) / 8 < out'.length := by
    rw [hlen]
    exact h.out
  by_cases hbad : s.b1 + iAction < s.g.a0 ∨ (s.g.rowLen : Int) < s.b1 + iAction
  · rw [if_pos hbad]
    exact ⟨_, rfl, ⟨h.g, h.slack, hout', fun _ => hb1⟩, rfl, hlen, fun h => by cases h⟩
  · rw [if_neg hbad]
    refine ⟨_, rfl, ⟨?_, h.slack, hout', fun _ => hb1⟩, rfl, hlen, fun _ _ => ?_⟩
    · exact ⟨h.g.gb, h.g.rowLen, h.g.bytes, h.g.prior, fun _ => h.slack, h.g.pixelPos⟩
    · show s.b1 + iAction ≤ s.g.rowLen
      omega

theorem passMode_sound (h : s.Sound w) (ha0 : 0 ≤ s.g.a0) (hb1 : 0 ≤ s.b1 ∧ s.b1 ≤ w) :
    ∃ s', passMode s = .ok s' ∧ Decodes w s (true, s') := by
  rw [passMode]
  obtain ⟨b2, hb2, hle⟩ := scanTo_slack s.g.white h.slack (show 0 ≤ s.b1 + 1 by omega)
    (show s.b1 + 1 ≤ (w : Int) + 1 by omega)
  have hout := h.out
  rw [← h.g.rowLen] at hout hb2
  obtain ⟨out', hrun, hlen⟩ := setRunIf_returns s.g s.g.a0 (b2 - s.g.a0) (fun _ => ha0) hout
  rw [hb2, ok_bind, hrun, ok_bind]
  refine ⟨_, rfl, ⟨⟨h.g.gb, h.g.rowLen, h.g.bytes, h.g.prior, fun _ => h.slack, h.g.pixelPos⟩,
    h.slack, ?_, fun _ => ⟨?_, ?_⟩⟩, rfl, hlen, fun _ _ => ?_⟩
  · show (w + 7) / 8 < out'.length
    rw [hlen]
    exact h.out
  · exact Int.natCast_nonneg b2
  · show (b2 : Int) ≤ w
    omega
  · show (b2 : Int) ≤ s.g.rowLen
    rw [h.g.rowLen]
    omega

theorem normalCode_sound (h : s.Sound w) (hin : s.g.a0 ≤ w) (iAction : Nat) :
    ∃ r, normalCode s iAction = .ok r ∧ Decodes w s r := by
  rw [normalCode]
  by_cases hhoriz : iAction = 8
  · rw [if_pos hhoriz]
    refine ⟨_, rfl, ⟨?_, h.slack, h.out, h.b1⟩, rfl, rfl, fun _ hnormal => by cases hnormal⟩
    exact ⟨h.g.gb, h.g.rowLen, h.g.bytes, h.g.prior, h.g.sentinel, h.g.pixelPos⟩
  · rw [if_neg hhoriz]
    obtain ⟨s₁, hfind, hs₁, ha0, hpos, hle, hout, hg⟩ := findB1_sound h hin
    have hgb : s₁.g.gb = s.g.gb := by rw [hg]
    rw [hfind, ok_bind]
    by_cases hvert : iAction ≤ 6
    · rw [if_pos hvert]
      obtain ⟨r, hr, hdec⟩ := verticalMode_sound hs₁ ha0 ⟨hpos, hle⟩ ((iAction : Int) - 3)
      exact ⟨r, hr, hdec.sound, hdec.gb.trans hgb, by rw [hdec.out_length, hout], hdec.inside⟩
    · rw [if_neg hvert]
      obtain ⟨s₂, hr, hdec⟩ := passMode_sound hs₁ ha0 ⟨hpos, hle⟩
      rw [hr, ok_bind]
      exact ⟨_, rfl, hdec.sound, hdec.gb.trans hgb, by rw [hdec.out_length, hout], hdec.inside⟩

/-- A run of horizontal mode starts in the row or behind it. Where `a0` leaves an `int`, it
becomes negative and the next run starts over. -/
theorem horizCode_sound (h : s.Sound w) (hstate : s.g.state2d ≠ .normal2d) (runLen : Nat) :
    ∃ r, horizCode s runLen = .ok r ∧ Decodes w s r := by
  rw [horizCode]
  dsimp only
  generalize hg₁ : (if s.g.a0 < 0 then { s.g with a0 := 0 } else s.g) = g₁
  have hsame : g₁.rowLen = s.g.rowLen ∧ g₁.gb = s.g.gb ∧ g₁.priorP = s.g.priorP ∧
      g₁.bytesInRow = s.g.bytesInRow ∧ g₁.pixelPos = s.g.pixelPos ∧
      g₁.state2d = s.g.state2d ∧ 0 ≤ g₁.a0 := by
    rw [← hg₁]
    by_cases hneg : s.g.a0 < 0
    · rw [if_pos hneg]
      exact ⟨rfl, rfl, rfl, rfl, rfl, rfl, Int.le_refl 0⟩
    · rw [if_neg hneg]
      exact ⟨rfl, rfl, rfl, rfl, rfl, rfl, Int.not_lt.mp hneg⟩
  obtain ⟨hrow, hgb, hprior, hbytes, hpixel, hstate₁, ha0⟩ := hsame
  have hout := h.out
  rw [← h.g.rowLen, ← hrow] at hout
  obtain ⟨out', hrun, hlen⟩ := setRunIf_returns g₁ g₁.a0 (runLen : Int) (fun _ => ha0) hout
  rw [hrun, ok_bind]
  have hout' : (w + 7) / 8 < out'.length := by
    rw [hlen]
    exact h.out
  -- whatever becomes of `a0`, the colour and the state
  have hsound : ∀ (a0 : Int) (white : Bool) (state2d : State2d),
      DecInst.Sound w { g₁ with a0 := a0, white := white, state2d := state2d } := fun _ _ _ =>
    ⟨hgb ▸ h.g.gb, hrow.trans h.g.rowLen, hbytes.trans h.g.bytes, hprior ▸ h.g.prior,
      fun _ => hprior ▸ h.slack, hpixel ▸ h.g.pixelPos⟩
  have hslack : Slack g₁.priorP w := hprior ▸ h.slack
  by_cases hmake : 63 < runLen
  · rw [if_pos hmake]
    exact ⟨_, rfl, ⟨hsound _ _ _, hslack, hout', h.b1⟩, hgb, hlen,
      fun _ hnormal => absurd (hstate₁.symm.trans hnormal) hstate⟩
  · rw [if_neg hmake]
    cases hsecond : g₁.state2d with
    | normal2d => exact absurd (hstate₁.symm.trans hsecond) hstate
    | horiz1st =>
      exact ⟨_, rfl, ⟨hsound _ _ _, hslack, hout', h.b1⟩, hgb, hlen, fun _ hnormal => by
        cases hnormal⟩
    | horiz2nd =>
      exact ⟨_, rfl, ⟨hsound _ _ _, hslack, hout', fun hneed => by cases hneed⟩, hgb, hlen,
        fun hgood _ => of_decide_eq_true hgood⟩

theorem decodeCode2d_sound (h : s.Sound w) (hin : s.g.Inside) (value : Nat) :
    ∃ r, decodeCode2d s value = .ok r ∧ Decodes w s r := by
  rw [decodeCode2d]
  cases hstate : s.g.state2d with
  | normal2d =>
    have ha0 := hin hstate
    rw [h.g.rowLen] at ha0
    exact normalCode_sound h ha0 value
  | horiz1st => exact horizCode_sound h (by rw [hstate]; decide) value
  | horiz2nd => exact horizCode_sound h (by rw [hstate]; decide) value

/-! ### Where a row stops -/

theorem atEol2d_sound (h : g.Sound w) (hout : (w + 7) / 8 < out.length) {ret : Ret}
    (hleave : ret.hitEol = true → 0 < g.gb.cacheCnt) :
    Ends w out (unusual2d.atEol g out ret) := by
  by_cases hfmt : g.inputFormat = .mmr
  · rw [atEol2d_mmr hfmt]
    refine ⟨h, rfl, fun _ => hleave, ?_⟩
    by_cases hneg : 0 ≤ g.a0
    · exact .inr (.inr ⟨decide_eq_true hneg, hfmt⟩)
    · exact .inl fun _ => show g.a0 ≤ g.rowLen by omega
  · rw [atEol2d_of_ne hfmt]
    by_cases hdone : ¬ g.refRowInvalid ∧ g.a0 = g.rowLen
    · rw [if_pos hdone]
      exact ⟨h, rfl, fun _ => hleave, .inr (.inl rfl)⟩
    · rw [if_neg hdone]
      by_cases hneg : 0 ≤ g.a0
      · rw [if_pos hneg]
        exact ⟨⟨h.gb, h.rowLen, h.bytes, h.prior, h.sentinel, h.pixelPos⟩,
          repeatRow_length h hout, fun _ => hleave, .inr (.inl rfl)⟩
      · rw [if_neg hneg]
        exact ⟨h, rfl, fun _ => hleave, .inl fun _ => show g.a0 ≤ g.rowLen by omega⟩

theorem unusual2d_sound (code : Code) (h : g.Sound w) (hout : (w + 7) / 8 < out.length)
    (hin : code = .badCode ∨ g.Inside) (hleave : code = .hitEol → 0 < g.gb.cacheCnt) :
    Ends w out (unusual2d g out code) := by
  have hnormal : DecInst.Sound w { g with state2d := .normal2d } :=
    ⟨h.gb, h.rowLen, h.bytes, h.prior, h.sentinel, h.pixelPos⟩
  cases code with
  | gotCode value => exact ⟨h, rfl, (fun _ => (nomatch ·)), .inl (hin.resolve_left (nomatch ·))⟩
  | needMore => exact ⟨h, rfl, (fun _ => (nomatch ·)), .inl (hin.resolve_left (nomatch ·))⟩
  | badCode =>
    exact ⟨⟨h.gb, h.rowLen, h.bytes, h.prior, h.sentinel, h.pixelPos⟩, repeatRow_length h hout,
      (fun _ => (nomatch ·)), .inr (.inl rfl)⟩
  | fill => exact atEol2d_sound hnormal hout (nomatch ·)
  | hitEol => exact atEol2d_sound hnormal hout fun _ => hleave rfl

theorem nextTable_good {tbl : HuffTable} (h : nextTable g = .inr tbl) : tbl.Good := by
  rw [nextTable] at h
  cases hstate : g.state2d with
  | normal2d =>
    rw [hstate] at h
    dsimp only at h
    by_cases hdone : (g.rowLen : Int) ≤ g.a0 ∧ g.inputFormat = .mmr
    · rw [if_pos hdone] at h
      cases h
    · rw [if_neg hdone] at h
      cases h
      exact vertTable_good
  | horiz1st =>
    rw [hstate] at h
    cases h
    exact runTable_good g.white
  | horiz2nd =>
    rw [hstate] at h
    cases h
    exact runTable_good g.white

theorem nextTable_row {ret : Ret} (h : nextTable g = .inl ret) (hin : g.Inside) :
    ret = ⟨true, false, false, false⟩ := by
  rw [nextTable] at h
  cases hstate : g.state2d with
  | normal2d =>
    rw [hstate] at h
    dsimp only at h
    by_cases hdone : (g.rowLen : Int) ≤ g.a0 ∧ g.inputFormat = .mmr
    · have hle := hin hstate
      rw [if_pos hdone, if_pos (Int.le_antisymm hle hdone.1)] at h
      cases h
      rfl
    · rw [if_neg hdone] at h
      cases h
  | horiz1st =>
    rw [hstate] at h
    cases h
  | horiz2nd =>
    rw [hstate] at h
    cases h

theorem decodeModes_sound (rounds : Nat) (h : s.Sound w) (hin : s.g.Inside)
    (hrounds : s.g.gb.avail.length < rounds) :
    ∃ r, decodeModes rounds s = .ok r ∧ Ends w s.out r := by
  induction rounds generalizing s with
  | zero => exact absurd hrounds (Nat.not_lt_zero _)
  | succ rounds ih =>
    rw [decodeModes]
    cases htbl : nextTable s.g with
    | inl ret =>
      obtain rfl := nextTable_row htbl hin
      exact ⟨_, rfl, h.g, rfl, (fun _ => (nomatch ·)), .inr (.inl rfl)⟩
    | inr tbl =>
      dsimp only
      have hgood := nextTable_good htbl
      obtain ⟨gb, hparse, hbits, hleave⟩ := parseCode_spec hgood h.g.gb
      rw [hparse, ok_bind]
      have hlen : ∀ value, (parseBits tbl s.g.gb.avail).1 = .gotCode value →
          (parseBits tbl s.g.gb.avail).2.length < s.g.gb.avail.length :=
        fun _ => parseBits_length hgood
      generalize parseBits tbl s.g.gb.avail = p at hparse hbits hleave hlen
      obtain ⟨code, bits⟩ := p
      have hs : Decoding.Sound w { s with g := { s.g with gb := gb } } :=
        ⟨h.g.withGb hbits.wf, h.slack, h.out, h.b1⟩
      have hunusual := unusual2d_sound code hs.g h.out (.inr hin) hleave
      cases code with
      | gotCode value =>
        dsimp only
        obtain ⟨⟨good, s'⟩, hcode, hdec⟩ := decodeCode2d_sound hs hin value
        rw [hcode, ok_bind]
        cases good with
        | true =>
          have hless : s'.g.gb.avail.length < rounds := by
            rw [hdec.gb]
            have := hlen value rfl
            rw [hbits.avail]
            omega
          obtain ⟨r, hr, hends⟩ := ih hdec.sound (hdec.inside rfl) hless
          exact ⟨r, hr, hends.sound, hends.out_length.trans hdec.out_length, hends.leaves,
            hends.inside⟩
        | false =>
          have hends := unusual2d_sound .badCode hdec.sound.g hdec.sound.out (.inl rfl)
            (nomatch ·)
          exact ⟨_, rfl, hends.sound, hends.out_length.trans hdec.out_length, hends.leaves,
            hends.inside⟩
      | badCode => exact ⟨_, rfl, hunusual⟩
      | fill => exact ⟨_, rfl, hunusual⟩
      | hitEol => exact ⟨_, rfl, hunusual⟩
      | needMore => exact ⟨_, rfl, hunusual⟩

theorem Gb.avail_lt_rounds (b : Gb) : b.avail.length < b.rounds := by
  rw [Gb.avail_length, Gb.rounds]
  exact Nat.lt_succ_self _

/-- **A two-dimensional row is decoded without a fault, from any input.** -/
theorem decodeRow2d_sound (h : g.Sound w) (hin : g.Inside) (hout : (w + 7) / 8 < out.length) :
    ∃ r, decodeRow2d g out = .ok r ∧ Ends w out r := by
  rw [decodeRow2d]
  by_cases hneg : g.a0 < 0
  · rw [if_pos hneg]
    have hlt : g.bytesInRow < g.priorP.length := by
      rw [h.bytes]
      exact h.prior
    have hslack : Slack (g.priorP.set g.bytesInRow 0x55) w := by
      constructor
      · rw [List.length_set]
        exact h.prior
      · rw [← h.bytes, List.getD_eq_getElem _ _ (by rw [List.length_set]; exact hlt),
          List.getElem_set_self]
    rw [store_returns _ hlt, ok_bind]
    obtain ⟨r, hr, hends⟩ := decodeModes_sound g.gb.rounds
      (s := ⟨{ g with priorP := g.priorP.set g.bytesInRow 0x55 }, 0, true, whiteRow g out⟩)
      ⟨⟨h.gb, h.rowLen, h.bytes, hslack.1, fun _ => hslack, h.pixelPos⟩, hslack,
        by rw [whiteRow_length h hout]; exact hout, fun hneed => nomatch hneed⟩
      hin g.gb.avail_lt_rounds
    exact ⟨r, hr, hends.sound, hends.out_length.trans (whiteRow_length h hout), hends.leaves,
      hends.inside⟩
  · rw [if_neg hneg]
    exact decodeModes_sound g.gb.rounds (s := ⟨g, 0, true, out⟩)
      ⟨h, h.sentinel (Int.not_lt.mp hneg), hout, fun hneed => nomatch hneed⟩ hin
      g.gb.avail_lt_rounds

/-! ## One-dimensional rows -/

/-- The codes at the front of these bits put black runs only where the position is an `int`
that is not negative. -/
def blackInRange : Nat → Bool → Int → List Bool → Bool
  | 0, _, _, _ => true
  | rounds + 1, white, pos, bits =>
    match parseBits (runTable white) bits with
    | (.gotCode runLen, rest) =>
      (white || decide (0 ≤ pos ∧ pos < 2 ^ 31))
        && blackInRange rounds (if runLen ≤ 63 then !white else white) (pos + runLen) rest
    | _ => true

/-- The run lengths of the row so far and of what is in front of the decoder do not leave an
`int` before a black run. -/
def BlackInRange (g : DecInst) : Prop :=
  blackInRange (g.gb.avail.length + 1) g.white g.pixelPos g.gb.avail = true

instance (g : DecInst) : Decidable (BlackInRange g) := inferInstanceAs (Decidable (_ = true))

theorem int32_int32 (n : Int) : int32 (int32 n) = int32 n := Int.bmod_bmod

theorem int32_self {n : Int} (h₁ : -2 ^ 31 ≤ n) (h₂ : n < 2 ^ 31) : int32 n = n := by
  rw [int32]
  exact Int.bmod_eq_of_le (by omega) (by omega)

theorem int32_add (n k : Int) : int32 (int32 n + k) = int32 (n + k) := Int.bmod_add_bmod

theorem atEol1d_sound (h : g.Sound w) (hin : g.Inside) (hout : (w + 7) / 8 < out.length) {ret : Ret}
    (hleave : ret.hitEol = true → 0 < g.gb.cacheCnt) :
    Ends w out (unusual1d.atEol g out ret) := by
  rw [unusual1d.atEol]
  by_cases hstart : g.pixelPos = 0
  · rw [if_pos hstart]
    exact ⟨h, rfl, fun _ => hleave, .inl hin⟩
  · rw [if_neg hstart]
    by_cases hdone : g.pixelPos = g.rowLen
    · rw [if_pos hdone]
      exact ⟨⟨h.gb, h.rowLen, h.bytes, h.prior, h.sentinel, h.pixelPos⟩, rfl, fun _ => hleave,
        .inr (.inl rfl)⟩
    · rw [if_neg hdone]
      exact ⟨h, repeatRow_length h hout, fun _ => hleave, .inr (.inl rfl)⟩

theorem unusual1d_sound (code : Code) (h : g.Sound w) (hin : g.Inside)
    (hout : (w + 7) / 8 < out.length) (hleave : code = .hitEol → 0 < g.gb.cacheCnt) :
    Ends w out (unusual1d g out code) := by
  cases code with
  | gotCode value => exact ⟨h, rfl, (fun _ => (nomatch ·)), .inl hin⟩
  | needMore => exact ⟨h, rfl, (fun _ => (nomatch ·)), .inl hin⟩
  | badCode => exact ⟨h, repeatRow_length h hout, (fun _ => (nomatch ·)), .inr (.inl rfl)⟩
  | fill => exact atEol1d_sound h hin hout (nomatch ·)
  | hitEol => exact atEol1d_sound h hin hout fun _ => hleave rfl

theorem decodeRuns_sound (rounds : Nat) {pos : Int} (h : g.Sound w) (hin : g.Inside)
    (hout : (w + 7) / 8 < out.length) (hpos : g.pixelPos = int32 pos)
    (hrange : blackInRange rounds g.white pos g.gb.avail = true)
    (hrounds : g.gb.avail.length < rounds) :
    ∃ r, decodeRuns rounds g out = .ok r ∧ Ends w out r := by
  induction rounds generalizing g out pos with
  | zero => exact absurd hrounds (Nat.not_lt_zero _)
  | succ rounds ih =>
    rw [decodeRuns]
    have hgood := runTable_good g.white
    obtain ⟨gb, hparse, hbits, hleave⟩ := parseCode_spec hgood h.gb
    rw [hparse, ok_bind]
    rw [blackInRange] at hrange
    have hlen : ∀ value, (parseBits (runTable g.white) g.gb.avail).1 = .gotCode value →
        (parseBits (runTable g.white) g.gb.avail).2.length < g.gb.avail.length :=
      fun _ => parseBits_length hgood
    generalize parseBits (runTable g.white) g.gb.avail = p at hparse hbits hleave hlen hrange
    obtain ⟨code, bits⟩ := p
    have hs := h.withGb hbits.wf
    have hunusual := unusual1d_sound code hs hin hout hleave
    cases code with
    | gotCode runLen =>
      dsimp only at hrange ⊢
      rw [Bool.and_eq_true] at hrange
      obtain ⟨hblack, hrest⟩ := hrange
      rw [decodeRun1d]
      have hstart : g.white = false → 0 ≤ g.pixelPos := by
        intro hwhite
        rw [hwhite, Bool.false_or, decide_eq_true_eq] at hblack
        rw [hpos, int32_self (by lia) (by lia)]
        exact hblack.1
      obtain ⟨out', hrun, hout'⟩ := setRunIf_returns { g with gb := gb } g.pixelPos (runLen : Int)
        hstart (by rw [h.rowLen]; exact hout)
      dsimp only at hrun ⊢
      rw [hrun, ok_bind, ok_bind]
      set g₁ : DecInst := { g with
        gb := gb
        pixelPos := int32 (g.pixelPos + runLen)
        white := if runLen ≤ 63 then !g.white else g.white } with hg₁
      have hs₁ : g₁.Sound w :=
        ⟨hbits.wf, h.rowLen, h.bytes, h.prior, h.sentinel, int32_int32 _⟩
      have hpos₁ : g₁.pixelPos = int32 (pos + runLen) := by
        show int32 (g.pixelPos + runLen) = _
        rw [hpos]
        exact int32_add pos runLen
      have hless : g₁.gb.avail.length < rounds := by
        have := hlen runLen rfl
        show gb.avail.length < rounds
        rw [hbits.avail]
        lia
      obtain ⟨r, hr, hends⟩ := ih hs₁ hin (by rw [hout']; exact hout) hpos₁
        (by show blackInRange rounds g₁.white _ gb.avail = true; rw [hbits.avail]; exact hrest) hless
      exact ⟨r, hr, hends.sound, hends.out_length.trans hout', hends.leaves, hends.inside⟩
    | badCode => exact ⟨_, rfl, hunusual⟩
    | fill => exact ⟨_, rfl, hunusual⟩
    | hitEol => exact ⟨_, rfl, hunusual⟩
    | needMore => exact ⟨_, rfl, hunusual⟩

/-- **A one-dimensional row is decoded without a fault while its run lengths stay in range.** -/
theorem decodeRow1d_sound (h : g.Sound w) (hin : g.Inside) (hout : (w + 7) / 8 < out.length)
    (hrange : BlackInRange g) : ∃ r, decodeRow1d g out = .ok r ∧ Ends w out r := by
  have hrange : blackInRange g.gb.rounds g.white g.pixelPos g.gb.avail = true := by
    rw [BlackInRange, Gb.avail_length] at hrange
    exact hrange
  rw [decodeRow1d]
  by_cases hstart : g.pixelPos = 0
  · rw [if_pos hstart]
    have hlen := whiteRow_length h hout
    have hout' : (w + 7) / 8 < (whiteRow g out).length := by
      rw [hlen]
      exact hout
    obtain ⟨r, hr, hends⟩ := decodeRuns_sound g.gb.rounds (g := { g with refRowInvalid := true })
      ⟨h.gb, h.rowLen, h.bytes, h.prior, h.sentinel, h.pixelPos⟩ hin hout' h.pixelPos.symm hrange
      g.gb.avail_lt_rounds
    exact ⟨r, hr, hends.sound, hends.out_length.trans hlen, hends.leaves, hends.inside⟩
  · rw [if_neg hstart]
    exact decodeRuns_sound g.gb.rounds h hin hout h.pixelPos.symm hrange g.gb.avail_lt_rounds

/-! ## Calls -/

/-- The invariant between calls. After an error, MMR data is not decoded any more. -/
structure DecInst.Ready (w : Nat) (g : DecInst) : Prop where
  sound : g.Sound w
  inside : g.tossEverything = false → g.Inside

/-- The condition on a call: it matters where a one-dimensional row is decoded. -/
def CallInRange (g : DecInst) (inBuf : List UInt8) : Prop :=
  g.flushingToEol = false → g.twoDim = false →
    BlackInRange { g with gb := { g.gb with unread := inBuf } }

theorem decodeStep_sound (h : g.Sound w) (hin : g.Inside) (hout : (w + 7) / 8 < out.length)
    (hrange : g.flushingToEol = false → g.twoDim = false → BlackInRange g) :
    ∃ r, decodeStep g out = .ok r ∧ Ends w out r := by
  rw [decodeStep]
  by_cases hflush : g.flushingToEol = true
  · rw [if_pos hflush]
    obtain ⟨hit, gb, hrun, hscan⟩ := bitsFlushToEol_spec g.gotFill (g.inputFormat = .mr) h.gb
    rw [hrun, ok_bind]
    cases hscan with
    | found _ _ hleave hwf _ _ =>
      exact ⟨_, rfl, h.withGb hwf, rfl, fun hmr _ => hleave (decide_eq_true hmr), .inl hin⟩
    | short _ _ _ hwf => exact ⟨_, rfl, h.withGb hwf, rfl, (fun _ => (nomatch ·)), .inl hin⟩
  · rw [if_neg hflush]
    by_cases htwo : g.twoDim = true
    · rw [if_pos htwo]
      exact decodeRow2d_sound h hin hout
    · rw [if_neg htwo]
      exact decodeRow1d_sound h hin hout
        (hrange (Bool.eq_false_iff.mpr hflush) (Bool.eq_false_iff.mpr htwo))

theorem afterError_sound (h : g.Sound w) (ret : Ret) : (afterError g ret).Sound w := by
  by_cases herr : ret.inputError = true
  · by_cases hfmt : g.inputFormat = .mmr
    · rw [afterError_mmr herr hfmt]
      exact ⟨⟨Nat.zero_le _, h.gb.cache_lt⟩, h.rowLen, h.bytes, h.prior, h.sentinel, h.pixelPos⟩
    · rw [afterError_of_ne herr hfmt]
      exact ⟨h.gb, h.rowLen, h.bytes, h.prior, h.sentinel, h.pixelPos⟩
  · rw [afterError_of_ok (Bool.eq_false_iff.mpr herr)]
    exact h

theorem afterError_keeps (g : DecInst) (ret : Ret) :
    (afterError g ret).inputFormat = g.inputFormat ∧
      (g.inputFormat = .mr → (afterError g ret).gb = g.gb) := by
  by_cases herr : ret.inputError = true
  · by_cases hfmt : g.inputFormat = .mmr
    · rw [afterError_mmr herr hfmt]
      exact ⟨rfl, fun hmr => by
        rw [hfmt] at hmr
        cases hmr⟩
    · rw [afterError_of_ne herr hfmt]
      exact ⟨rfl, fun _ => rfl⟩
  · rw [afterError_of_ok (Bool.eq_false_iff.mpr herr)]
    exact ⟨rfl, fun _ => rfl⟩

theorem afterError_ready {r : Ret × DecInst × List UInt8} (h : Ends w out r) :
    (afterError r.2.1 r.1).Ready w ∨ r.1.producedRow = true := by
  rcases h.inside with hin | hrow | ⟨herr, hfmt⟩
  · left
    refine ⟨afterError_sound h.sound r.1, fun _ => ?_⟩
    by_cases herr : r.1.inputError = true
    · by_cases hfmt : r.2.1.inputFormat = .mmr
      · rw [afterError_mmr herr hfmt]
        exact hin
      · rw [afterError_of_ne herr hfmt]
        exact hin
    · rw [afterError_of_ok (Bool.eq_false_iff.mpr herr)]
      exact hin
  · exact .inr hrow
  · left
    refine ⟨afterError_sound h.sound r.1, fun htoss => ?_⟩
    rw [afterError_mmr herr hfmt] at htoss
    cases htoss

theorem afterRow_ready {ret : Ret} (h : g.Sound w) (hready : g.Ready w ∨ ret.producedRow = true)
    (hout : (w + 7) / 8 < out.length) :
    (afterRow g ret out).Ready w ∧ (afterRow g ret out).gb = g.gb ∧
      (afterRow g ret out).inputFormat = g.inputFormat := by
  rw [afterRow]
  by_cases hrow : ret.producedRow = true
  · rw [if_pos hrow]
    have hlen : (copyRow g.priorP out g.bytesInRow).length = g.priorP.length :=
      copyRow_length (by rw [h.bytes]; exact Nat.le_of_lt h.prior)
        (by rw [h.bytes]; exact Nat.le_of_lt hout)
    refine ⟨⟨⟨h.gb, h.rowLen, h.bytes, ?_, (nomatch ·), rfl⟩, fun _ _ => ?_⟩, rfl, rfl⟩
    · show (w + 7) / 8 < (copyRow g.priorP out g.bytesInRow).length
      rw [hlen]
      exact h.prior
    · show (-1 : Int) ≤ g.rowLen
      omega
  · rw [if_neg hrow]
    exact ⟨hready.resolve_right hrow, rfl, rfl⟩

theorem afterFill_ready (h : g.Ready w) (ret : Ret) :
    (afterFill g ret).Ready w ∧ (afterFill g ret).gb = g.gb ∧
      (afterFill g ret).inputFormat = g.inputFormat := by
  rw [afterFill]
  by_cases hfill : ret.hitFill = true
  · rw [if_pos hfill]
    exact ⟨⟨⟨h.sound.gb, h.sound.rowLen, h.sound.bytes, h.sound.prior, h.sound.sentinel,
      h.sound.pixelPos⟩, h.inside⟩, rfl, rfl⟩
  · rw [if_neg hfill]
    exact ⟨h, rfl, rfl⟩

theorem readTag_sound (h : g.Sound w) (hleave : g.inputFormat = .mr → 0 < g.gb.cacheCnt) :
    ∃ g', readTag g = .ok g' ∧ g'.Sound w := by
  by_cases hfmt : g.inputFormat = .mr
  · rw [readTag_mr hfmt, load_spec (hleave hfmt), ok_bind]
    obtain ⟨-, hwf⟩ := advance_spec (hleave hfmt) h.gb
    exact ⟨_, rfl, hwf, h.rowLen, h.bytes, h.prior, h.sentinel, h.pixelPos⟩
  · rw [readTag_of_ne hfmt]
    exact ⟨g, rfl, h⟩

theorem afterEol_ready (ret : Ret) (h : g.Ready w)
    (hleave : g.inputFormat = .mr → ret.hitEol = true → 0 < g.gb.cacheCnt) :
    ∃ r, afterEol g ret = .ok r ∧ r.2.Ready w := by
  rw [afterEol]
  by_cases heol : ret.hitEol = true
  · rw [if_pos heol]
    obtain ⟨g₁, htag, hs⟩ := readTag_sound h.sound fun hmr => hleave hmr heol
    rw [htag, ok_bind]
    dsimp only
    have hin : (-1 : Int) ≤ g₁.rowLen := by omega
    by_cases hpage : eolsForPage (decodeRowInit g₁).inputFormat ≤ g₁.numEols + 1
    · rw [if_pos hpage]
      exact ⟨_, rfl, ⟨⟨Nat.zero_le _, hs.gb.cache_lt⟩, hs.rowLen, hs.bytes, hs.prior, (nomatch ·),
        rfl⟩, fun _ _ => hin⟩
    · rw [if_neg hpage]
      exact ⟨_, rfl, ⟨hs.gb, hs.rowLen, hs.bytes, hs.prior, (nomatch ·), rfl⟩, fun _ _ => hin⟩
  · rw [if_neg heol]
    exact ⟨_, rfl, h⟩

/-- **A call returns, and leaves a decoder that can be called again.** -/
theorem faxDecodeConvert_ready (h : g.Ready w) (hout : (w + 7) / 8 < out.length)
    (hrange : CallInRange g inBuf) :
    ∃ d, faxDecodeConvert g inBuf out = .ok d ∧ d.xform.Ready w := by
  rw [faxDecodeConvert]
  by_cases hdone : inBuf.length = 0 ∧ g.gb.cacheCnt < 13
  · rw [if_pos hdone]
    exact ⟨_, rfl, h⟩
  rw [if_neg hdone]
  by_cases htoss : g.tossEverything = true
  · rw [if_pos htoss]
    exact ⟨_, rfl, ⟨h.sound.gb, h.sound.rowLen, h.sound.bytes, h.sound.prior, h.sound.sentinel,
      h.sound.pixelPos⟩, h.inside⟩
  rw [if_neg htoss]
  have hopen : DecInst.Sound w { g with gb := { g.gb with unread := inBuf } } :=
    h.sound.withGb ⟨h.sound.gb.cnt_le, h.sound.gb.cache_lt⟩
  obtain ⟨⟨ret, g₁, out₁⟩, hstep, hends⟩ := decodeStep_sound hopen
    (h.inside (Bool.eq_false_iff.mpr htoss)) hout hrange
  have hout₁ : (w + 7) / 8 < out₁.length := by
    rw [hends.out_length]
    exact hout
  obtain ⟨hkeepf, hkeepgb⟩ := afterError_keeps g₁ ret
  obtain ⟨hrow, hrowgb, hrowf⟩ := afterRow_ready (afterError_sound hends.sound ret)
    (afterError_ready hends) hout₁
  obtain ⟨hfill, hfillgb, hfillf⟩ := afterFill_ready hrow ret
  obtain ⟨⟨page, g₂⟩, heol, hready⟩ := afterEol_ready ret hfill (by
    intro hmr hhit
    rw [hfillf, hrowf, hkeepf] at hmr
    rw [hfillgb, hrowgb, hkeepgb hmr]
    exact hends.leaves hmr hhit)
  refine ⟨_, bind_eq_ok.mpr ⟨_, hstep, bind_eq_ok.mpr ⟨_, heol, rfl⟩⟩, ?_⟩
  exact ⟨⟨hready.sound.gb, hready.sound.rowLen, hready.sound.bytes, hready.sound.prior,
    hready.sound.sentinel, hready.sound.pixelPos⟩, hready.inside⟩

/-- The calls of a run: each with an input buffer and an output buffer. -/
def decodeCalls : DecInst → List (List UInt8 × List UInt8) → Except Fault (List Decoded)
  | _, [] => .ok []
  | g, (inBuf, out) :: calls => do
    let d ← faxDecodeConvert g inBuf out
    let ds ← decodeCalls d.xform calls
    .ok (d :: ds)

def RunInRange : DecInst → List (List UInt8 × List UInt8) → Prop
  | _, [] => True
  | g, (inBuf, out) :: calls =>
    CallInRange g inBuf ∧ ∀ d, faxDecodeConvert g inBuf out = .ok d → RunInRange d.xform calls

theorem openXform_ready {fmt : FaxFormat} {allowance : List UInt8} (hallow : 0 < allowance.length)
    (hopen : faxDecodeGetActualTraits (faxDecodeOpenXform fmt) w allowance = .returned g) :
    g.Ready w := by
  rw [faxDecodeGetActualTraits] at hopen
  by_cases hbig : int32 (w + 7) < 0
  · rw [if_pos hbig] at hopen
    cases hopen
  · rw [if_neg hbig] at hopen
    cases hopen
    refine ⟨⟨⟨Nat.zero_le _, Nat.two_pow_pos 32⟩, rfl, rfl, ?_, (nomatch ·), rfl⟩, fun _ _ => ?_⟩
    · rw [List.length_append, List.length_replicate]
      omega
    · show (-1 : Int) ≤ w
      omega

theorem decodeCalls_ok (h : g.Ready w) {calls : List (List UInt8 × List UInt8)}
    (hout : ∀ call ∈ calls, (w + 7) / 8 < call.2.length) (hrun : RunInRange g calls) :
    ∃ ds, decodeCalls g calls = .ok ds := by
  induction calls generalizing g with
  | nil => exact ⟨[], rfl⟩
  | cons call calls ih =>
    obtain ⟨inBuf, out⟩ := call
    obtain ⟨d, hd, hready⟩ := faxDecodeConvert_ready h
      (hout (inBuf, out) List.mem_cons_self) hrun.1
    obtain ⟨ds, hds⟩ := ih hready (fun call hcall => hout call (List.mem_cons_of_mem _ hcall))
      (hrun.2 d hd)
    exact ⟨d :: ds, bind_eq_ok.mpr ⟨d, hd, bind_eq_ok.mpr ⟨ds, hds, rfl⟩⟩⟩

/-- **Any calls of an opened decoder return without a fault**, with rows of any width and any
input, while the run lengths of one-dimensional rows stay in range. -/
theorem decodeCalls_returns {fmt : FaxFormat} {allowance : List UInt8}
    (hallow : 0 < allowance.length)
    (hopen : faxDecodeGetActualTraits (faxDecodeOpenXform fmt) w allowance = .returned g)
    {calls : List (List UInt8 × List UInt8)}
    (hout : ∀ call ∈ calls, (w + 7) / 8 < call.2.length) (hrun : RunInRange g calls) :
    ∃ ds, decodeCalls g calls = .ok ds :=
  decodeCalls_ok (openXform_ready hallow hopen) hout hrun

/-! ### A row that leaves an `int`

Rows of 8 pixels. The row starts with a white run of length 0; then make-up codes for 2560
black pixels follow, two in every three bytes. -/

def inLongRow (gb : Gb) (pos : Int) (dwInNextPos : UInt32) : DecInst :=
  ⟨dwInNextPos, 0, gb, pos, false, .normal2d, -1, [0, 0], true, .mh, 1, false, false, false, false,
    8, 1⟩

def longRowGb (unread : List UInt8) : Gb := ⟨unread, 12, 0x1F01F01F, 0⟩

def longRowChunk : List UInt8 := [0x01, 0xF0, 0x1F]

theorem setRun_behind {start : Int} (h : 16 ≤ start) (runLen : Int) (out : List UInt8) :
    setRun out start runLen 8 = .ok out := by
  rw [setRun]
  dsimp only
  generalize hend : (if ((8 : Nat) : Int) ≤ int32 (start + runLen - 1) then ((8 : Nat) : Int) - 1
    else int32 (start + runLen - 1)) = endPos
  have hlast : endPos ≤ 7 := by
    rw [← hend]
    by_cases h : ((8 : Nat) : Int) ≤ int32 (start + runLen - 1)
    · rw [if_pos h]
      decide
    · rw [if_neg h]
      lia
  rw [if_neg (by lia), if_neg (by lia), if_neg (by lia)]

theorem setRun_negative {start : Int} (h : start < 0) (runLen : Int) (out : List UInt8) :
    setRun out start runLen w = .error (.setRun start runLen) := by
  rw [setRun]
  exact if_pos h

theorem decodeRuns_gotCode {rounds runLen : Nat} {gb : Gb} {out' : List UInt8}
    (hparse : parseCode g.gb (runTable g.white) = .ok (.gotCode runLen, gb))
    (hset : setRunIf g out g.pixelPos runLen = .ok out') :
    decodeRuns (rounds + 1) g out
      = decodeRuns rounds { g with
          gb := gb
          pixelPos := int32 (g.pixelPos + runLen)
          white := if runLen ≤ 63 then !g.white else g.white } out' := by
  rw [decodeRuns, hparse, ok_bind]
  dsimp only
  rw [decodeRun1d, show setRunIf { g with gb := gb } out g.pixelPos runLen = .ok out' from hset]
  rfl

theorem decodeRuns_needMore {rounds : Nat} {gb : Gb}
    (hparse : parseCode g.gb (runTable g.white) = .ok (.needMore, gb)) :
    decodeRuns (rounds + 1) g out = .ok (.zero, { g with gb := gb }, out) := by
  rw [decodeRuns, hparse, ok_bind]
  rfl

theorem decodeRuns_fault {rounds runLen : Nat} {gb : Gb} {fault : Fault}
    (hparse : parseCode g.gb (runTable g.white) = .ok (.gotCode runLen, gb))
    (hset : setRunIf g out g.pixelPos runLen = .error fault) :
    decodeRuns (rounds + 1) g out = .error fault := by
  rw [decodeRuns, hparse, ok_bind]
  dsimp only
  rw [decodeRun1d, show setRunIf { g with gb := gb } out g.pixelPos runLen = .error fault from hset]
  rfl

theorem longRow_codes :
    parseCode (longRowGb longRowChunk) blackTable
        = .ok (.gotCode 2560, ⟨[0x1F], 16, 0xF01F01F0, 0⟩) ∧
      parseCode ⟨[0x1F], 16, 0xF01F01F0, 0⟩ blackTable
        = .ok (.gotCode 2560, ⟨[0x1F], 4, 0xF01F01F0, 0⟩) ∧
      parseCode ⟨[0x1F], 4, 0xF01F01F0, 0⟩ blackTable = .ok (.needMore, longRowGb []) := by
  refine ⟨?_, ?_, ?_⟩ <;> decide +kernel

theorem longRow_decodeStep {pos : Int} (h : pos ≠ 0) (next : UInt32) (out : List UInt8) :
    decodeStep (inLongRow (longRowGb longRowChunk) pos next) out
      = decodeRuns 37 (inLongRow (longRowGb longRowChunk) pos next) out := by
  rw [decodeStep]
  exact if_neg h

theorem longRow_first {pos : Int} (h : 16 ≤ pos) (next : UInt32) (out : List UInt8) :
    decodeRuns 37 (inLongRow (longRowGb longRowChunk) pos next) out
      = decodeRuns 36 (inLongRow ⟨[0x1F], 16, 0xF01F01F0, 0⟩ (int32 (pos + 2560)) next) out :=
  decodeRuns_gotCode longRow_codes.1 (setRun_behind h _ out)

theorem longRow_second {pos : Int} (h : 16 ≤ pos) (next : UInt32) (out : List UInt8) :
    decodeRuns 36 (inLongRow ⟨[0x1F], 16, 0xF01F01F0, 0⟩ pos next) out
      = decodeRuns 35 (inLongRow ⟨[0x1F], 4, 0xF01F01F0, 0⟩ (int32 (pos + 2560)) next) out :=
  decodeRuns_gotCode longRow_codes.2.1 (setRun_behind h _ out)

theorem longRow_step {pos : Int} (h : 16 ≤ pos) (hlt : pos + 5120 < 2 ^ 31) (next : UInt32)
    (out : List UInt8) :
    faxDecodeConvert (inLongRow (longRowGb []) pos next) longRowChunk out
      = .ok ⟨false, false, false, false, 3, next + 3, 0, 0, out,
          inLongRow (longRowGb []) (pos + 5120) (next + 3)⟩ := by
  have hrow : decodeStep (inLongRow (longRowGb longRowChunk) pos next) out
      = .ok (.zero, inLongRow (longRowGb []) (pos + 5120) next, out) := by
    rw [longRow_decodeStep (by omega), longRow_first h, int32_self (by omega) (by omega),
      longRow_second (by omega), int32_self (by omega) (by omega), Int.add_assoc]
    exact decodeRuns_needMore longRow_codes.2.2
  have htoss : (inLongRow (longRowGb []) pos next).tossEverything = false := rfl
  have hchunk : longRowChunk.length ≠ 0 := by decide
  rw [faxDecodeConvert, if_neg (fun hdone => hchunk hdone.1), if_neg (Bool.eq_false_iff.mp htoss)]
  show (decodeStep (inLongRow (longRowGb longRowChunk) pos next) out >>= _) = _
  rw [hrow]
  rfl

theorem longRow_fault {pos : Int} (h : 16 ≤ pos) (hneg : int32 (pos + 2560) < 0) (next : UInt32)
    (out : List UInt8) :
    faxDecodeConvert (inLongRow (longRowGb []) pos next) longRowChunk out
      = .error (.setRun (int32 (pos + 2560)) 2560) := by
  have hrow : decodeStep (inLongRow (longRowGb longRowChunk) pos next) out
      = .error (.setRun (int32 (pos + 2560)) 2560) := by
    rw [longRow_decodeStep (by omega), longRow_first h]
    exact decodeRuns_fault longRow_codes.2.1 (setRun_negative hneg _ out)
  have htoss : (inLongRow (longRowGb []) pos next).tossEverything = false := rfl
  have hchunk : longRowChunk.length ≠ 0 := by decide
  rw [faxDecodeConvert, if_neg (fun hdone => hchunk hdone.1), if_neg (Bool.eq_false_iff.mp htoss)]
  show (decodeStep (inLongRow (longRowGb longRowChunk) pos next) out >>= _) = _
  rw [hrow]
  rfl

theorem longRow_run (k : Nat) {pos : Int} (h : 16 ≤ pos) (hlt : pos + 5120 * k < 2 ^ 31)
    (hge : 2 ^ 31 ≤ pos + 5120 * k + 2560) (next : UInt32) (out : List UInt8) :
    decodeCalls (inLongRow (longRowGb []) pos next)
        (List.replicate (k + 1) (longRowChunk, out))
      = .error (.setRun (int32 (pos + 5120 * k + 2560)) 2560) := by
  induction k generalizing pos next with
  | zero =>
    have hneg : int32 (pos + 2560) < 0 := by
      rw [int32, Int.bmod_def]
      lia
    rw [List.replicate_succ, decodeCalls, longRow_fault h hneg, Int.natCast_zero, Int.mul_zero,
      Int.add_zero]
    rfl
  | succ k ih =>
    rw [List.replicate_succ, decodeCalls, longRow_step h (by lia), ok_bind,
      ih (by lia) (by lia) (by lia),
      show pos + 5120 + 5120 * (k : Int) = pos + 5120 * (k + 1 : Nat) by lia]
    rfl

/-- The buffers of the row: an EOL, a white run of length 0, and make-up codes. -/
def longRow : List (List UInt8 × List UInt8) :=
  ([0x00, 0x13, 0x50, 0x1F], [0, 0]) :: (longRowChunk, [0, 0]) ::
    List.replicate 419430 (longRowChunk, [0xFF, 0])

theorem longRow_start :
    faxDecodeConvert ⟨0, 0, ⟨[], 0, 0, 0⟩, 0, true, .normal2d, -1, [0, 0], false, .mh, 0, false,
          true, false, false, 8, 1⟩ [0x00, 0x13, 0x50, 0x1F] [0, 0]
        = .ok ⟨false, false, false, false, 4, 4, 0, 0, [0, 0],
            ⟨4, 0, ⟨[], 20, 0x0013501F, 0⟩, 0, true, .normal2d, -1, [0, 0], false, .mh, 1, false,
              false, false, false, 8, 1⟩⟩ ∧
      faxDecodeConvert ⟨4, 0, ⟨[], 20, 0x0013501F, 0⟩, 0, true, .normal2d, -1, [0, 0], false, .mh, 1,
          false, false, false, false, 8, 1⟩ longRowChunk [0, 0]
        = .ok ⟨false, false, false, false, 3, 7, 0, 0, [0xFF, 0],
            inLongRow (longRowGb []) 5120 7⟩ := by
  constructor <;> decide +kernel

/-- **After 838860 make-up codes for 2560 pixels, `set_run` is called with a start below 0.** -/
theorem decodeCalls_setRun_negative :
    ∃ g, faxDecodeGetActualTraits (faxDecodeOpenXform .mh) 8 [0] = .returned g ∧
      decodeCalls g longRow = .error (.setRun (-2147483136) 2560) := by
  obtain ⟨hfirst, hsecond⟩ := longRow_start
  have hrest : decodeCalls (inLongRow (longRowGb []) 5120 7)
      (List.replicate 419430 (longRowChunk, [0xFF, 0])) = .error (.setRun (-2147483136) 2560) :=
    longRow_run 419429 (by decide) (by decide) (by decide) 7 [0xFF, 0]
  refine ⟨_, rfl, ?_⟩
  rw [longRow, decodeCalls]
  refine (congrArg (· >>= _) hfirst).trans ?_
  rw [ok_bind, decodeCalls, hsecond, ok_bind, hrest]
  rfl

/-- The first two calls of that row are in range. -/
theorem decodeCalls_returns_longRow :
    ∃ g, faxDecodeGetActualTraits (faxDecodeOpenXform .mh) 8 [0] = .returned g ∧
      ∃ ds, decodeCalls g [([0x00, 0x13, 0x50, 0x1F], [0, 0]), (longRowChunk, [0, 0])]
        = .ok ds := by
  obtain ⟨hfirst, -⟩ := longRow_start
  have hout : ∀ call ∈ [(([0x00, 0x13, 0x50, 0x1F] : List UInt8), ([0, 0] : List UInt8)),
      (longRowChunk, [0, 0])], (8 + 7) / 8 < call.2.length := by decide
  refine ⟨_, rfl, decodeCalls_returns (show 0 < [0].length by decide)
    (show faxDecodeGetActualTraits (faxDecodeOpenXform .mh) 8 [0] = .returned _ from rfl) hout ?_⟩
  refine ⟨(fun hflush => nomatch hflush), fun d hd => ?_⟩
  cases hfirst.symm.trans hd
  exact ⟨fun _ _ => by decide +kernel, fun _ _ => trivial⟩

end Hplip.Ip
