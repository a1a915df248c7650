import Hplip.Lib.RowCoding
import Hplip.Ip.FaxPixels
import Hplip.Ip.FaxWords

/-!
# Encoded rows

What `encode_row_1d` writes is the runs of the row, and what `encode_row_2d` writes is its
modes: the positions that the encoder carries from one mode to the next are those of the
definition, although it searches only for the ones it takes to have changed.
-/

namespace Hplip.Ip

open Scan RowCoding Bits

variable {g g₁ : EncInst} {buf row ref : List UInt8} {n : Nat}

/-- Every scan of the row comes to an end. -/
def Stops (buf : List UInt8) (n : Nat) : Prop :=
  ∀ skip start, start ≤ n + 1 → ∃ r, scanTo skip buf (start : Nat) n = .ok r

theorem Sentinel.stops (h : Sentinel row n) : Stops row n :=
  fun _ _ hstart => ⟨_, scanTo_sentinel h hstart⟩

/-! ## One dimension -/

/-- The word of a list of runs, the first in the colour `c`. -/
def runsWord : Bool → List Nat → List Bool
  | _, [] => []
  | c, r :: rs => runWord c r ++ runsWord (!c) rs

theorem encodeRuns_ok {rounds i : Nat} {c : Bool} (h : encodeRuns row n rounds g i c = .ok g₁) :
    ∃ rs, Runs (pix row) n c i rs ∧ Emits g g₁ (runsWord c rs) := by
  induction rounds generalizing g i c with
  | zero => cases h
  | succ rounds ih =>
    rw [encodeRuns] at h
    by_cases hlt : i < n
    · rw [if_pos hlt] at h
      obtain ⟨r, hr, h⟩ := bind_eq_ok.mp h
      obtain ⟨-, rfl⟩ := scanTo_ok hr
      obtain ⟨rs, hrs, hemits⟩ := ih h
      exact ⟨_, .step hlt hrs, (putColour_emits c g _).trans hemits⟩
    · rw [if_neg hlt] at h
      cases h
      exact ⟨[], .done (Nat.not_lt.mp hlt), .nil⟩

theorem encodeRuns_returns (hstops : Stops row n) (rounds : Nat) {i : Nat} {c : Bool}
    (hi : i ≤ n) (h : n < i + rounds ∧ (i < n → pix row i = c) ∨ n + 1 < i + rounds) :
    ∃ g₁, encodeRuns row n rounds g i c = .ok g₁ := by
  induction rounds generalizing g i c with
  | zero => lia
  | succ rounds ih =>
    rw [encodeRuns]
    by_cases hlt : i < n
    · rw [if_pos hlt]
      obtain ⟨r, hr⟩ := hstops c i (Nat.le_succ_of_le hi)
      obtain ⟨-, rfl⟩ := scanTo_ok hr
      rw [hr]
      refine ih next_le (.inl ⟨?_, fun hn => next_eq_not hn⟩)
      have hle : i ≤ next (pix row) c n i := le_next hi
      rcases h with ⟨hrounds, hcol⟩ | hrounds
      · have := lt_next hlt (hcol hlt)
        lia
      · lia
    · rw [if_neg hlt]
      exact ⟨g, rfl⟩

/-! ## Two dimensions -/

/-- The word of a mode, coded in the colour `c`. -/
def modeWord (c : Bool) : Mode → List Bool
  | .pass => natBits 4 1
  | .vertical d => (vertTbl[(d + 3).toNat]!).word
  | .horizontal run₁ run₂ => natBits 3 1 ++ (runWord c run₁ ++ runWord (!c) run₂)

def modesWord (ms : List (Bool × Mode)) : List Bool := ms.flatMap fun m => modeWord m.1 m.2

/-- The positions of the encoder are those of the definition. -/
structure Agrees (row ref : Nat → Bool) (n : Nat) (start c : Bool) (s : Coding) : Prop where
  skip : s.skip = !c
  a1 : s.a1 = RowCoding.a1 row n c s.a0
  b1 : s.b1 = Scan.b1 ref n start c s.a0
  b2 : s.b2 = Scan.b2 ref n c s.b1

structure Unsettled (row ref : Nat → Bool) (n : Nat) (c : Bool) (s : Coding) (need : Need) :
    Prop where
  skip : s.skip = !c
  a1 : need.a1 = false → s.a1 = RowCoding.a1 row n c s.a0
  b0 : need.b0 = true → need.b1 = true
  from_b1 : need.b0 = false → need.b1 = true →
    next ref c n (s.b1 + 1) = Scan.b1 ref n false c s.a0
  b1 : need.b1 = false → s.b1 = Scan.b1 ref n false c s.a0
  b2 : need.b2 = false → need.b1 = false ∧ s.b2 = Scan.b2 ref n c s.b1
  b1_le : s.b1 ≤ n

theorem vertTbl_fits (d : Int) (h : -3 ≤ d ∧ d ≤ 3) : (vertTbl[(d + 3).toNat]!).Fits := by
  have hall : ∀ i < 7, (vertTbl[i]!).Fits := by decide
  exact hall _ (by lia)

variable {start c : Bool} {s s₁ : Coding} {need : Need}

theorem vertical_b1 {p : Nat → Bool} {a0 a : Nat} (h : a0 ≤ a)
    (hab : a < b2 p n c (b1 p n start c a0)) (hd : -1 ≤ (a : Int) - b1 p n start c a0) :
    b2 p n c (b1 p n start c a0) = b1 p n false (!c) a := by
  rcases Nat.lt_or_ge a (b1 p n start c a0) with hlt | hge
  · exact (b1_vertical h (Nat.le_of_lt hlt) (by omega)).symm
  · exact (b1_between hge hab).symm

/-- **One mode.** -/
theorem putMode_ok (hs : Agrees (pix row) (pix ref) n start c s) (ha0 : s.a0 ≤ n)
    (h : putMode g row n s = .ok (g₁, s₁, need)) :
    Emits g g₁ (modeWord c (modeAt (pix row) (pix ref) n start c s.a0).1) ∧
      s₁.a0 = (modeAt (pix row) (pix ref) n start c s.a0).2.1 ∧
      Unsettled (pix row) (pix ref) n (modeAt (pix row) (pix ref) n start c s.a0).2.2 s₁ need := by
  obtain ⟨hskip, ha1, hb1, hb2⟩ := hs
  have ha1n : s.a1 ≤ n := ha1 ▸ a1_le
  have ha01 : s.a0 ≤ s.a1 := ha1 ▸ le_a1 ha0
  have hb1n : s.b1 ≤ n := hb1 ▸ b1_le
  have hb12 : s.b1 ≤ s.b2 := hb2 ▸ le_b2 hb1n
  rw [putMode] at h
  dsimp only at h
  by_cases hpass : s.b2 < s.a1
  · rw [if_pos hpass] at h
    cases h
    rw [modeAt_pass (by rwa [← ha1, ← hb1, ← hb2]), ← hb1, ← hb2]
    refine ⟨emits_putBits g (by decide) (by decide) (by decide), rfl, ?_⟩
    refine ⟨hskip, fun _ => ?_, (fun hn => by cases hn), fun _ _ => ?_, (fun hn => by cases hn),
      (fun hn => by cases hn), Nat.le_of_lt (Nat.lt_of_lt_of_le hpass ha1n)⟩
    · show s.a1 = next (pix row) c n s.b2
      rw [ha1]
      refine (next_next ?_ ?_).symm
      · exact Nat.le_trans (hb1 ▸ le_b1 ha0) hb12
      · rw [ha1] at hpass
        exact Nat.le_of_lt hpass
    · show next (pix ref) c n (s.b2 + 1) = Scan.b1 (pix ref) n false c s.b2
      rw [hb2]
      exact (b1_pass s.b1).symm
  · rw [if_neg hpass] at h
    have hge : RowCoding.a1 (pix row) n c s.a0
        ≤ Scan.b2 (pix ref) n c (Scan.b1 (pix ref) n start c s.a0) := by
      rw [← ha1, ← hb1, ← hb2]
      exact Nat.not_lt.mp hpass
    by_cases hd : -3 ≤ (s.a1 : Int) - s.b1 ∧ (s.a1 : Int) - s.b1 ≤ 3
    · rw [if_pos hd] at h
      rw [modeAt_vertical hge (by rwa [← ha1, ← hb1]), ← ha1, ← hb1]
      by_cases hall : s.b2 = s.a1 ∨ (s.a1 : Int) - s.b1 ≤ -2
      · rw [if_pos hall] at h
        cases h
        refine ⟨putCode_emits g (vertTbl_fits _ hd), rfl, ?_⟩
        exact ⟨by rw [hskip], (fun hn => by cases hn), fun _ => rfl, (fun hn => by cases hn),
          (fun hn => by cases hn), (fun hn => by cases hn), hb2 ▸ b2_le⟩
      · rw [if_neg hall] at h
        cases h
        refine ⟨putCode_emits g (vertTbl_fits _ hd), rfl, ?_⟩
        refine ⟨by rw [hskip], (fun hn => by cases hn), (fun hn => by cases hn),
          (fun _ hn => by cases hn), fun _ => ?_, (fun hn => by cases hn), hb2 ▸ b2_le⟩
        show s.b2 = Scan.b1 (pix ref) n false (!c) s.a1
        rw [hb2, hb1]
        exact vertical_b1 ha01 (by rw [← hb1, ← hb2]; lia) (by rw [← hb1]; lia)
    · rw [if_neg hd] at h
      obtain ⟨a, ha, h⟩ := bind_eq_ok.mp h
      obtain ⟨-, ha⟩ := scanTo_ok ha
      rw [hskip] at ha
      have ha2 : a = RowCoding.a2 (pix row) n c s.a1 := ha
      rw [modeAt_horizontal hge (by rwa [← ha1, ← hb1]), ← ha1, ← ha2]
      have hemits : Emits g (if s.skip then
            putBlackRun (putWhiteRun (putBits g 3 1) (s.a1 - s.a0)) (a - s.a1)
          else putWhiteRun (putBlackRun (putBits g 3 1) (s.a1 - s.a0)) (a - s.a1))
          (modeWord c (.horizontal (s.a1 - s.a0) (a - s.a1))) := by
        have hbits : Emits g (putBits g 3 1) (natBits 3 1) :=
          emits_putBits g (by decide) (by decide) (by decide)
        refine hbits.trans ?_
        rw [hskip]
        cases c with
        | false => exact (putColour_emits false _ _).trans (putColour_emits true _ _)
        | true => exact (putColour_emits true _ _).trans (putColour_emits false _ _)
      have ha12 : s.a1 ≤ a := ha2 ▸ le_a2 ha1n
      by_cases hbeyond : s.b2 < a
      · rw [if_pos hbeyond] at h
        cases h
        exact ⟨hemits, rfl, hskip, (fun hn => by cases hn), fun _ => rfl, (fun hn => by cases hn),
          (fun hn => by cases hn), (fun hn => by cases hn), hb1n⟩
      · rw [if_neg hbeyond] at h
        by_cases hshort : a < s.b1
        · rw [if_pos hshort] at h
          cases h
          have hsame : Scan.b1 (pix ref) n false c a = s.b1 := by
            rw [hb1]
            exact b1_short (Nat.le_trans ha01 ha12) (by rwa [← hb1])
          exact ⟨hemits, rfl, hskip, (fun hn => by cases hn), (fun hn => by cases hn),
            (fun _ hn => by cases hn), fun _ => hsame.symm, fun _ => ⟨rfl, hb2⟩, hb1n⟩
        · rw [if_neg hshort] at h
          cases h
          have hsame : next (pix ref) c n (s.b2 + 1) = Scan.b1 (pix ref) n false c a := by
            rw [hb2, hb1]
            refine (b1_beyond ?_ ?_).symm
            · rw [← hb1]
              exact Nat.not_lt.mp hshort
            · rw [← hb1, ← hb2]
              exact Nat.not_lt.mp hbeyond
          exact ⟨hemits, rfl, hskip, (fun hn => by cases hn), (fun hn => by cases hn),
            fun _ _ => hsame, (fun hn => by cases hn), (fun hn => by cases hn), hb2 ▸ b2_le⟩

theorem scanIf_ok {need skip : Bool} {buf : List UInt8} {startPos old r : Nat}
    (h : scanIf need skip buf startPos n old = .ok r) :
    r = if need then next (pix buf) skip n startPos else old := by
  cases need with
  | true => exact (scanTo_ok h).2
  | false => exact (Except.ok.inj h).symm

theorem nextPositions_ok (hs : Unsettled (pix row) (pix ref) n c s need) (ha0 : s.a0 < n)
    (hcol : pix row s.a0 = c) (h : nextPositions row ref n s need = .ok s₁) :
    Agrees (pix row) (pix ref) n false c s₁ ∧ s₁.a0 = s.a0 := by
  rw [nextPositions] at h
  obtain ⟨a, ha, h⟩ := bind_eq_ok.mp h
  obtain ⟨b, hb, h⟩ := bind_eq_ok.mp h
  obtain ⟨b', hb', h⟩ := bind_eq_ok.mp h
  obtain ⟨b'', hb'', h⟩ := bind_eq_ok.mp h
  cases h
  have ha := scanIf_ok ha
  have hb := scanIf_ok hb
  have hb' := scanIf_ok hb'
  have hb'' := scanIf_ok hb''
  rw [hs.skip, Bool.not_not] at ha hb'
  rw [hs.skip] at hb hb''
  have hfirst : b' = Scan.b1 (pix ref) n false c s.a0 := by
    cases hneed : need.b1 with
    | false =>
      have hb0 : need.b0 = false := by
        cases hb0 : need.b0 with
        | false => rfl
        | true => rw [hs.b0 hb0] at hneed; cases hneed
      rw [hneed] at hb'
      rw [hb0] at hb
      rw [hb', if_neg Bool.false_ne_true, hb, if_neg Bool.false_ne_true, hs.b1 hneed]
    | true =>
      rw [hneed, if_pos rfl] at hb'
      cases hb0 : need.b0 with
      | false =>
        rw [hb0, if_neg Bool.false_ne_true] at hb
        rw [hb', hb, hs.from_b1 hb0 hneed]
      | true =>
        rw [hb0, if_pos rfl] at hb
        rw [hb', hb]
        rfl
  refine ⟨⟨hs.skip, ?_, hfirst, ?_⟩, rfl⟩
  · show a = RowCoding.a1 (pix row) n c s.a0
    cases hneed : need.a1 with
    | false =>
      rw [hneed, if_neg Bool.false_ne_true] at ha
      rw [ha, hs.a1 hneed]
    | true =>
      rw [hneed, if_pos rfl] at ha
      rw [ha, next_succ ha0 hcol]
      rfl
  · show b'' = Scan.b2 (pix ref) n c b'
    cases hneed : need.b2 with
    | false =>
      obtain ⟨hb1, hold⟩ := hs.b2 hneed
      have hb0 : need.b0 = false := by
        cases hb0 : need.b0 with
        | false => rfl
        | true => rw [hs.b0 hb0] at hb1; cases hb1
      rw [hb1, if_neg Bool.false_ne_true] at hb'
      rw [hb0, if_neg Bool.false_ne_true] at hb
      rw [hneed, if_neg Bool.false_ne_true] at hb''
      rw [hb'', hold, hb', hb]
    | true =>
      rw [hneed, if_pos rfl] at hb''
      exact hb''

/-- **All modes.** -/
theorem encodeModes_ok {rounds : Nat} (hs : Agrees (pix row) (pix ref) n start c s)
    (ha0 : Coloured (pix row) n start c s.a0) (hlt : start = true ∨ s.a0 < n)
    (h : encodeModes row ref n rounds g s = .ok g₁) :
    ∃ ms, Modes (pix row) (pix ref) n start c s.a0 ms ∧ Emits g g₁ (modesWord ms) := by
  induction rounds generalizing g start c s with
  | zero => cases h
  | succ rounds ih =>
    rw [encodeModes] at h
    obtain ⟨⟨g', s', need⟩, hmode, h⟩ := bind_eq_ok.mp h
    obtain ⟨hemits, hnext, hunsettled⟩ := putMode_ok hs ha0.1 hmode
    have hcol := modeAt_coloured (pix ref) ha0
    dsimp only at h
    by_cases hdone : n ≤ s'.a0
    · rw [if_pos hdone] at h
      cases h
      refine ⟨_, .step hlt (.done (hnext ▸ hdone)), ?_⟩
      rw [modesWord, List.flatMap_cons, List.flatMap_nil, List.append_nil]
      exact hemits
    · rw [if_neg hdone] at h
      obtain ⟨s₁, hs₁, h⟩ := bind_eq_ok.mp h
      have hlt' : s'.a0 < n := Nat.not_le.mp hdone
      rw [← hnext] at hcol
      obtain ⟨hagrees, ha0'⟩ := nextPositions_ok hunsettled hlt' (hcol.2 rfl hlt') hs₁
      obtain ⟨ms, hms, hemits'⟩ := ih hagrees (ha0' ▸ hcol) (.inr (ha0' ▸ hlt')) h
      rw [ha0', hnext] at hms
      refine ⟨_, .step hlt hms, ?_⟩
      rw [modesWord, List.flatMap_cons]
      exact hemits.trans hemits'

/-! ### The loop ends -/

theorem putMode_returns (hrow : Stops row n) (ha1 : s.a1 ≤ n) :
    ∃ g₁ s₁ need, putMode g row n s = .ok (g₁, s₁, need) := by
  rw [putMode]
  dsimp only
  by_cases hpass : s.b2 < s.a1
  · rw [if_pos hpass]
    exact ⟨_, _, _, rfl⟩
  · rw [if_neg hpass]
    by_cases hd : -3 ≤ (s.a1 : Int) - s.b1 ∧ (s.a1 : Int) - s.b1 ≤ 3
    · rw [if_pos hd]
      exact ⟨_, _, _, rfl⟩
    · rw [if_neg hd]
      obtain ⟨a, ha⟩ := hrow s.skip (s.a1 + 1) (Nat.succ_le_succ ha1)
      rw [ha]
      show ∃ _ _ _, (if s.b2 < a then _ else if a < s.b1 then _ else _) = _
      by_cases hbeyond : s.b2 < a
      · rw [if_pos hbeyond]
        exact ⟨_, _, _, rfl⟩
      · rw [if_neg hbeyond]
        by_cases hshort : a < s.b1
        · rw [if_pos hshort]
          exact ⟨_, _, _, rfl⟩
        · rw [if_neg hshort]
          exact ⟨_, _, _, rfl⟩

theorem putMode_keeps (h : putMode g row n s = .ok (g₁, s₁, need)) :
    s₁.a1 = s.a1 ∧ s₁.b2 = s.b2 := by
  rw [putMode] at h
  dsimp only at h
  by_cases hpass : s.b2 < s.a1
  · rw [if_pos hpass] at h
    cases h
    exact ⟨rfl, rfl⟩
  · rw [if_neg hpass] at h
    by_cases hd : -3 ≤ (s.a1 : Int) - s.b1 ∧ (s.a1 : Int) - s.b1 ≤ 3
    · rw [if_pos hd] at h
      cases h
      exact ⟨rfl, rfl⟩
    · rw [if_neg hd] at h
      obtain ⟨a, -, h⟩ := bind_eq_ok.mp h
      by_cases hbeyond : s.b2 < a
      · rw [if_pos hbeyond] at h
        cases h
        exact ⟨rfl, rfl⟩
      · rw [if_neg hbeyond] at h
        by_cases hshort : a < s.b1
        · rw [if_pos hshort] at h
          cases h
          exact ⟨rfl, rfl⟩
        · rw [if_neg hshort] at h
          cases h
          exact ⟨rfl, rfl⟩

theorem scanIf_returns (need skip : Bool) {buf : List UInt8} {startPos old : Nat}
    (h : Stops buf n) (hstart : startPos ≤ n + 1) (hold : old ≤ n) :
    ∃ r, scanIf need skip buf startPos n old = .ok r ∧ r ≤ n := by
  cases need with
  | false => exact ⟨old, rfl, hold⟩
  | true =>
    obtain ⟨r, hr⟩ := h skip startPos hstart
    exact ⟨r, hr, (scanTo_ok hr).2 ▸ next_le⟩

theorem nextPositions_returns (need : Need) (hrow : Stops row n) (href : Stops ref n)
    (ha0 : s.a0 ≤ n) (ha1 : s.a1 ≤ n) (hb1 : s.b1 ≤ n) (hb2 : s.b2 ≤ n) :
    ∃ s₁, nextPositions row ref n s need = .ok s₁ := by
  obtain ⟨a, ha, -⟩ := scanIf_returns need.a1 (!s.skip) hrow
    (Nat.succ_le_succ ha0) ha1
  obtain ⟨b, hb, hbn⟩ := scanIf_returns need.b0 s.skip href
    (Nat.le_succ_of_le ha0) hb1
  obtain ⟨b', hb', hbn'⟩ := scanIf_returns need.b1 (!s.skip) href
    (Nat.succ_le_succ hbn) hbn
  obtain ⟨b'', hb'', -⟩ := scanIf_returns need.b2 s.skip href
    (Nat.succ_le_succ hbn') hb2
  exact ⟨_, bind_eq_ok.mpr ⟨a, ha, bind_eq_ok.mpr ⟨b, hb, bind_eq_ok.mpr ⟨b', hb',
    bind_eq_ok.mpr ⟨b'', hb'', rfl⟩⟩⟩⟩⟩

theorem encodeModes_returns (hrow : Stops row n) (href : Stops ref n) (rounds : Nat)
    (hs : Agrees (pix row) (pix ref) n start c s) (ha0 : Coloured (pix row) n start c s.a0)
    (hlt : start = true ∨ s.a0 < n)
    (hrounds : n + 1 < s.a0 + rounds ∨ (start = false ∧ n < s.a0 + rounds)) :
    ∃ g₁, encodeModes row ref n rounds g s = .ok g₁ := by
  induction rounds generalizing g start c s with
  | zero =>
    have := ha0.1
    lia
  | succ rounds ih =>
    rw [encodeModes]
    obtain ⟨g', s', need, hmode⟩ := putMode_returns (g := g) (s := s) hrow (hs.a1 ▸ a1_le)
    obtain ⟨-, hnext, hunsettled⟩ := putMode_ok hs ha0.1 hmode
    have hcol := modeAt_coloured (pix ref) ha0
    rw [hmode]
    show ∃ _, (if n ≤ s'.a0 then _ else _) = _
    by_cases hdone : n ≤ s'.a0
    · rw [if_pos hdone]
      exact ⟨g', rfl⟩
    · rw [if_neg hdone]
      have hlt' : s'.a0 < n := Nat.not_le.mp hdone
      have hle := (modeAt_progress (pix ref) ha0 hlt).1
      have hstrict := (modeAt_progress (pix ref) ha0 hlt).2
      rw [← hnext] at hcol hle hstrict
      obtain ⟨hkeep₁, hkeep₂⟩ := putMode_keeps hmode
      obtain ⟨s₁, hs₁⟩ := nextPositions_returns (s := s') need hrow href
        (Nat.le_of_lt hlt') (hkeep₁ ▸ hs.a1 ▸ a1_le) hunsettled.b1_le (hkeep₂ ▸ hs.b2 ▸ b2_le)
      obtain ⟨hagrees, ha0'⟩ := nextPositions_ok hunsettled hlt' (hcol.2 rfl hlt') hs₁
      rw [hs₁]
      refine ih hagrees (ha0' ▸ hcol) (.inr (ha0' ▸ hlt')) (.inr ⟨rfl, ?_⟩)
      rw [ha0']
      rcases hrounds with hrounds | ⟨hstart, hrounds⟩
      · lia
      · have := hstrict hstart
        lia

/-! ## Rows -/

def withSentinel (buf : List UInt8) (n : Nat) : List UInt8 := buf.set (n / 8) 0x55

theorem encodeRow1d_ok {mr : Bool}
    (h : encodeRow1d g buf n mr = .ok (g₁, row)) :
    n / 8 < buf.length ∧ row = withSentinel buf n ∧
      encodeRuns row n (n + 2) (if mr then putBits (putEOL g) 1 1 else putEOL g) 0 false
        = .ok g₁ := by
  rw [encodeRow1d] at h
  obtain ⟨row', hstore, h⟩ := bind_eq_ok.mp h
  obtain ⟨g', hruns, h⟩ := bind_eq_ok.mp h
  cases h
  obtain ⟨hlen, rfl⟩ := store_ok hstore
  exact ⟨hlen, rfl, hruns⟩

theorem encodeRow2d_ok {mr : Bool} {prior : List UInt8}
    (h : encodeRow2d g buf ref n mr = .ok (g₁, row, prior)) :
    n / 8 < buf.length ∧ row = withSentinel buf n ∧
      n / 8 < ref.length ∧ prior = withSentinel ref n ∧
      ∃ a1 b1 b2, scanTo false row (0 : Nat) n = .ok a1 ∧
        scanTo false prior (0 : Nat) n = .ok b1 ∧
        scanTo true prior (b1 + 1 : Nat) n = .ok b2 ∧
        encodeModes row prior n (n + 2) (if mr then putBits (putEOL g) 1 0 else g)
          ⟨0, a1, b1, b2, true⟩ = .ok g₁ := by
  rw [encodeRow2d] at h
  obtain ⟨row', hstore, h⟩ := bind_eq_ok.mp h
  obtain ⟨prior', hstore', h⟩ := bind_eq_ok.mp h
  obtain ⟨a1, ha1, h⟩ := bind_eq_ok.mp h
  obtain ⟨b1, hb1, h⟩ := bind_eq_ok.mp h
  obtain ⟨b2, hb2, h⟩ := bind_eq_ok.mp h
  obtain ⟨g', hmodes, h⟩ := bind_eq_ok.mp h
  cases h
  obtain ⟨hlen, rfl⟩ := store_ok hstore
  obtain ⟨hlen', rfl⟩ := store_ok hstore'
  exact ⟨hlen, rfl, hlen', rfl, a1, b1, b2, ha1, hb1, hb2, hmodes⟩

theorem encodeRow1d_emits {mr : Bool} (h : encodeRow1d g buf n mr = .ok (g₁, row)) :
    ∃ rs, Runs (pix row) n false 0 rs ∧
      Emits g g₁ (eolWord ++ ((if mr then [true] else []) ++ runsWord false rs)) := by
  obtain ⟨-, -, h⟩ := encodeRow1d_ok h
  obtain ⟨rs, hrs, hemits⟩ := encodeRuns_ok h
  refine ⟨rs, hrs, (putEOL_emits g).trans ?_⟩
  cases mr with
  | false => exact hemits
  | true => exact (emits_putBits _ (by decide) (by decide) (by decide)).trans hemits

theorem encodeRow2d_emits {mr : Bool} {prior : List UInt8}
    (h : encodeRow2d g buf ref n mr = .ok (g₁, row, prior)) :
    ∃ ms, Modes (pix row) (pix prior) n true false 0 ms ∧
      Emits g g₁ ((if mr then eolWord ++ [false] else []) ++ modesWord ms) := by
  obtain ⟨-, -, -, -, a1, b1, b2, ha1, hb1, hb2, h⟩ := encodeRow2d_ok h
  have hagrees : Agrees (pix row) (pix prior) n true false ⟨0, a1, b1, b2, true⟩ :=
    ⟨rfl, (scanTo_ok ha1).2, (scanTo_ok hb1).2, (scanTo_ok hb2).2⟩
  obtain ⟨ms, hms, hemits⟩ := encodeModes_ok hagrees
    ⟨Nat.zero_le n, fun hstart => by cases hstart⟩ (.inl rfl) h
  refine ⟨ms, hms, ?_⟩
  cases mr with
  | false => exact hemits
  | true =>
    have htag : Emits (putEOL g) (putBits (putEOL g) 1 0) [false] :=
      emits_putBits _ (by decide) (by decide) (by decide)
    exact ((putEOL_emits g).trans htag).trans hemits

theorem encodeRow1d_returns {mr : Bool} (hlen : n / 8 < buf.length)
    (hstops : Stops (withSentinel buf n) n) :
    ∃ g₁, encodeRow1d g buf n mr = .ok (g₁, withSentinel buf n) := by
  obtain ⟨g₁, h⟩ := encodeRuns_returns (g := if mr then putBits (putEOL g) 1 1 else putEOL g)
    hstops (n + 2) (i := 0) (c := false) (Nat.zero_le n) (.inr (by omega))
  exact ⟨g₁, bind_eq_ok.mpr ⟨_, store_returns 0x55 hlen, bind_eq_ok.mpr ⟨g₁, h, rfl⟩⟩⟩

theorem encodeRow2d_returns {mr : Bool} (hlen : n / 8 < buf.length)
    (hstops : Stops (withSentinel buf n) n) (hlen' : n / 8 < ref.length)
    (hstops' : Stops (withSentinel ref n) n) :
    ∃ g₁, encodeRow2d g buf ref n mr = .ok (g₁, withSentinel buf n, withSentinel ref n) := by
  obtain ⟨a1, ha1⟩ := hstops false 0 (Nat.zero_le _)
  obtain ⟨b1, hb1⟩ := hstops' false 0 (Nat.zero_le _)
  have hb1n : b1 ≤ n := (scanTo_ok hb1).2 ▸ next_le
  obtain ⟨b2, hb2⟩ := hstops' true (b1 + 1) (Nat.succ_le_succ hb1n)
  have hagrees : Agrees (pix (withSentinel buf n)) (pix (withSentinel ref n)) n true false
      ⟨0, a1, b1, b2, true⟩ := ⟨rfl, (scanTo_ok ha1).2, (scanTo_ok hb1).2, (scanTo_ok hb2).2⟩
  obtain ⟨g₁, h⟩ := encodeModes_returns (g := if mr then putBits (putEOL g) 1 0 else g) hstops
    hstops' (n + 2) hagrees ⟨Nat.zero_le n, fun hstart => by cases hstart⟩ (.inl rfl)
    (.inl (by show n + 1 < 0 + (n + 2); omega))
  exact ⟨g₁, bind_eq_ok.mpr ⟨_, store_returns 0x55 hlen, bind_eq_ok.mpr ⟨_,
    store_returns 0x55 hlen', bind_eq_ok.mpr ⟨a1, ha1, bind_eq_ok.mpr ⟨b1, hb1,
      bind_eq_ok.mpr ⟨b2, hb2, bind_eq_ok.mpr ⟨g₁, h, rfl⟩⟩⟩⟩⟩⟩⟩

end Hplip.Ip
