import Hplip.Lib.ChangingElement
import Hplip.Ip.FaxSentinel

/-!
# The modes that are defined

`encode_row_2d` looks for a changing element only where the mode before it has moved one. At the
top of every round its positions are nevertheless those of the definition, searched for in the
whole rows, and so the modes that it puts are the ones that are prescribed.
-/

namespace Hplip.Ip

open ChangingElement (Stands Codes)

variable {g g' : EncInst} {buf ref row prior : List UInt8} {n : Nat} {start : Bool} {s s' : Coding}

/-- The positions before the first round of `encode_row_2d`. -/
def firstPositions (pbPixelRow pbRefRow : List UInt8) (iPixels : Nat) : Except Fault Coding := do
  let a1 ← scanTo false pbPixelRow 0 iPixels
  let b1 ← scanTo false pbRefRow 0 iPixels
  let b2 ← scanTo true pbRefRow (b1 + 1 : Nat) iPixels
  .ok ⟨0, a1, b1, b2, true⟩

/-- The instance and the positions at the top of a round of the loop, the first one or a later
one. -/
inductive AtTop (row prior : List UInt8) (n : Nat) (g₀ : EncInst) :
    Bool → EncInst → Coding → Prop
  | first {s : Coding} (h : firstPositions row prior n = .ok s) : AtTop row prior n g₀ true g₀ s
  | next {start : Bool} {g g' : EncInst} {s s' s'' : Coding} {need : Need}
      (h : AtTop row prior n g₀ start g s) (hmode : putMode g row n s = .ok (g', s', need))
      (hmore : s'.a0 < n) (hnext : nextPositions row prior n s' need = .ok s'') :
      AtTop row prior n g₀ false g' s''

/-- The positions are those of the definition, for `a0` and the colour that is coded. -/
structure Defined (row ref : Nat → Bool) (n : Nat) (start : Bool) (s : Coding) : Prop where
  colour : (!s.skip) = ChangingElement.colour row start s.a0
  a1 : s.a1 = ChangingElement.a1 row n start s.a0
  b1 : s.b1 = ChangingElement.b1 ref n start (!s.skip) s.a0
  b2 : s.b2 = ChangingElement.b2 ref n s.b1

/-! ## Rounds -/

theorem firstPositions_ok (h : firstPositions row prior n = .ok s) :
    Agrees (pix row) (pix prior) n true false s ∧ s.a0 = 0 := by
  rw [firstPositions] at h
  obtain ⟨a1, ha1, h₁⟩ := bind_eq_ok.mp h
  obtain ⟨b1, hb1, h₂⟩ := bind_eq_ok.mp h₁
  obtain ⟨b2, hb2, h₃⟩ := bind_eq_ok.mp h₂
  cases h₃
  exact ⟨⟨rfl, (scanTo_ok ha1).2, (scanTo_ok hb1).2, (scanTo_ok hb2).2⟩, rfl⟩

theorem AtTop.stands {g₀ : EncInst} (h : AtTop row prior n g₀ start g s) :
    ∃ c, Agrees (pix row) (pix prior) n start c s ∧ Stands (pix row) n start c s.a0 ∧
      (start = true ∨ s.a0 < n) := by
  induction h with
  | first h =>
    obtain ⟨hagrees, ha0⟩ := firstPositions_ok h
    refine ⟨false, hagrees, ⟨fun _ => ⟨ha0, rfl⟩, nofun, ?_⟩, .inl rfl⟩
    rw [ha0]
    exact Nat.zero_le n
  | next _ hmode hmore hnext ih =>
    obtain ⟨c, hagrees, hstands, -⟩ := ih
    obtain ⟨-, ha0, hunsettled⟩ := putMode_ok hagrees hstands.le hmode
    have hcol := RowCoding.modeAt_coloured (pix prior) hstands.coloured
    rw [← ha0] at hcol
    obtain ⟨hagrees', hkeep⟩ := nextPositions_ok hunsettled hmore (hcol.2 rfl hmore) hnext
    rw [← hkeep] at hcol hmore
    exact ⟨_, hagrees', ChangingElement.stands_of_coloured hcol, .inr hmore⟩

theorem AtTop.defined {g₀ : EncInst} (h : AtTop row prior n g₀ start g s) :
    Defined (pix row) (pix prior) n start s := by
  obtain ⟨c, hagrees, hstands, hlt⟩ := h.stands
  have hc : (!s.skip) = c := by rw [hagrees.skip, Bool.not_not]
  have hb1 : s.b1 = Scan.b1 (pix prior) n start c s.a0 := hagrees.b1
  constructor
  · rw [hc, hstands.colour hlt]
  · rw [hagrees.a1]
    exact ChangingElement.a1_eq hstands
  · rw [hc, hb1]
    exact ChangingElement.b1_eq hstands.atStart hstands.le
  · rw [hagrees.b2]
    refine ChangingElement.b2_eq fun hn => ?_
    rw [hb1] at hn ⊢
    exact Scan.b1_eq_not hn

/-! ## The whole row -/

theorem withSentinel_pix (hn : n % 8 = 0) (hlen : n / 8 < buf.length) :
    ∀ i < n, pix (withSentinel buf n) i = pix buf i := by
  intro i hi
  rw [pix, getD_withSentinel hlen, if_neg (by lia), pix]

theorem withSentinel_stops (hn : n % 8 = 0) (hlen : n / 8 < buf.length) :
    Stops (withSentinel buf n) n := by
  refine Sentinel.stops ⟨hn, ?_, ?_⟩
  · rwa [withSentinel, List.length_set]
  · rw [getD_withSentinel hlen, if_pos rfl]

theorem Defined.congr {row' ref' : Nat → Bool} {row ref : Nat → Bool}
    (hrow : ∀ i < n, row i = row' i) (href : ∀ i < n, ref i = ref' i)
    (hlt : start = true ∨ s.a0 < n) (h : Defined row ref n start s) :
    Defined row' ref' n start s := by
  constructor
  · rw [h.colour, ChangingElement.colour_congr hrow hlt]
  · rw [h.a1, ChangingElement.a1_congr hrow]
  · rw [← ChangingElement.b1_congr href]
    exact h.b1
  · rw [← ChangingElement.b2_congr href]
    exact h.b2

/-- **The modes are the prescribed ones.** For rows of whole bytes, with room for the sentinel,
the encoder returns; at the top of every round its positions are those of the definition, and it
has put the modes that the definition prescribes. -/
theorem encodeRow2d_prescribed (g : EncInst) (mr : Bool) (hn : n % 8 = 0)
    (hbuf : n / 8 < buf.length) (href : n / 8 < ref.length) :
    ∃ g₁ ms, encodeRow2d g buf ref n mr = .ok (g₁, withSentinel buf n, withSentinel ref n) ∧
      Codes (pix buf) (pix ref) n true 0 ms ∧
      Emits g g₁ ((if mr then eolWord ++ [false] else []) ++ modesWord ms) ∧
      ∀ start g' s, AtTop (withSentinel buf n) (withSentinel ref n) n
          (if mr then putBits (putEOL g) 1 0 else g) start g' s →
        Defined (pix buf) (pix ref) n start s := by
  have hrow := withSentinel_pix hn hbuf
  have hprior := withSentinel_pix hn href
  obtain ⟨g₁, hrun⟩ : ∃ g₁, encodeRow2d g buf ref n mr
      = .ok (g₁, withSentinel buf n, withSentinel ref n) :=
    encodeRow2d_returns hbuf (withSentinel_stops hn hbuf) href (withSentinel_stops hn href)
  obtain ⟨ms, hms, hemits⟩ := encodeRow2d_emits hrun
  have hstands : Stands (pix (withSentinel buf n)) n true false 0 :=
    ⟨fun _ => ⟨rfl, rfl⟩, nofun, Nat.zero_le n⟩
  refine ⟨g₁, ms, hrun, (Codes.of_modes hms hstands).congr hrow hprior, hemits, ?_⟩
  intro start g' s htop
  obtain ⟨_, -, -, hlt⟩ := htop.stands
  exact htop.defined.congr hrow hprior hlt

/-- A black pixel to the left of the one above it is coded as a move to the left. -/
theorem encodeRow2d_prescribed_byte :
    ∃ g₁ ms, encodeRow2d (faxEncodeOpenXform .mmr 0) [0x20, 0] [0x10, 0] 8 false
        = .ok (g₁, [0x20, 0x55], [0x10, 0x55]) ∧
      Codes (pix [0x20, 0]) (pix [0x10, 0]) 8 true 0 ms ∧
      Emits (faxEncodeOpenXform .mmr 0) g₁ ([] ++ modesWord ms) ∧
      ∀ start g' s, AtTop [0x20, 0x55] [0x10, 0x55] 8 (faxEncodeOpenXform .mmr 0) start g' s →
        Defined (pix [0x20, 0]) (pix [0x10, 0]) 8 start s :=
  encodeRow2d_prescribed (n := 8) (faxEncodeOpenXform .mmr 0) false (by decide) (by decide)
    (by decide)

end Hplip.Ip
