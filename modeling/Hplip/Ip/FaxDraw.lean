import Mathlib
import Hplip.Ip.FaxBounds
import Hplip.Lib.Scan

/-!
# What the fax decoder draws (xfax.c)

A row is described by its codes: a pen goes over it, by runs and by changes relative to the row
above. The decoder is followed code by code; in two dimensions it does not look for the changing
element above from the start each time, and it may stop anywhere for want of input.
-/

namespace Hplip.Ip

open Scan

variable {g : DecInst} {s : Decoding} {buf out out' : List UInt8} {w start len i j : Nat}

/-! ## What `set_run` draws -/

theorem pix_set {b : UInt8} (hj : j < buf.length) :
    pix (buf.set j b) i = if i / 8 = j then bytePix b (i % 8) else pix buf i := by
  rw [pix, pix, List.getD_eq_getElem?_getD, List.getD_eq_getElem?_getD, List.getElem?_set]
  by_cases h : i / 8 = j
  · rw [if_pos h.symm, if_pos h, if_pos hj]
    rfl
  · rw [if_neg (Ne.symm h), if_neg h]

theorem bytePix_or (a b : UInt8) (k : Nat) : bytePix (a ||| b) k = (bytePix a k || bytePix b k) := by
  rw [bytePix, bytePix, bytePix, UInt8.toNat_or, Nat.testBit_or]

theorem runsArray_pix : ∀ left < 16, ∀ right < 16, ∀ k < 8,
    bytePix (runsArray left right).1 k = decide (left ≤ k ∧ k ≤ right) ∧
      bytePix (runsArray left right).2 k = decide (left ≤ k + 8 ∧ k + 8 ≤ right) := by
  decide +kernel

theorem bytePix_from : ∀ a < 8, ∀ k < 8, bytePix (0xFF >>> UInt8.ofNat a) k = decide (a ≤ k) := by
  decide +kernel

theorem bytePix_upTo : ∀ a < 8, ∀ k < 8, bytePix (0xFF <<< UInt8.ofNat (7 - a)) k = decide (k ≤ a) := by
  decide +kernel

theorem getD_spanned {l r : Nat} {b : UInt8} (hlr : l < r) (hr : r < buf.length) :
    (buf.take (l + 1) ++ List.replicate (r - (l + 1)) b ++ buf.drop r).getD j 0
      = if l < j ∧ j < r then b else buf.getD j 0 := by
  have htake : (buf.take (l + 1)).length = l + 1 := List.length_take_of_le (by lia)
  rw [List.getD_eq_getElem?_getD, List.getD_eq_getElem?_getD]
  rcases Nat.lt_or_ge j (l + 1) with hj | hj
  · rw [List.append_assoc, List.getElem?_append_left (by lia), List.getElem?_take_of_lt hj,
      if_neg (by lia)]
  · rcases Nat.lt_or_ge j r with hj' | hj'
    · rw [List.getElem?_append_left (by rw [List.length_append, htake, List.length_replicate]; lia),
        List.getElem?_append_right (by lia), List.getElem?_replicate, htake, if_pos (by lia),
        if_pos (by lia)]
      rfl
    · rw [List.getElem?_append_right (by rw [List.length_append, htake, List.length_replicate]; lia),
        List.length_append, htake, List.length_replicate, List.getElem?_drop, if_neg (by lia),
        show r + (j - (l + 1 + (r - (l + 1)))) = j by lia]

theorem run_second {e : Nat} (hword : e / 16 = start / 16) (hi : i / 8 = 2 * (start / 16) + 1) :
    start % 16 ≤ i % 8 + 8 ∧ i % 8 + 8 ≤ e % 16 ↔ start ≤ i ∧ i ≤ e := by
  omega

theorem run_first {e : Nat} (hword : e / 16 = start / 16) (hi : i / 8 = 2 * (start / 16)) :
    start % 16 ≤ i % 8 ∧ i % 8 ≤ e % 16 ↔ start ≤ i ∧ i ≤ e := by
  omega

theorem run_outside {e : Nat} (hword : e / 16 = start / 16) (h1 : i / 8 ≠ 2 * (start / 16))
    (h2 : i / 8 ≠ 2 * (start / 16) + 1) : ¬ (start ≤ i ∧ i ≤ e) := by
  omega

theorem setRun_word {e : Nat} (hword : e / 16 = start / 16) (hj : 2 * (start / 16) < out.length)
    (hj' : 2 * (start / 16) + 1 < out.length) {b b' : UInt8}
    (hb : b = out.getD (2 * (start / 16)) 0 ||| (runsArray (start % 16) (e % 16)).1)
    (hb' : b' = (out.set (2 * (start / 16)) b).getD (2 * (start / 16) + 1) 0 ||| (runsArray (start % 16) (e % 16)).2) :
    pix ((out.set (2 * (start / 16)) b).set (2 * (start / 16) + 1) b') i
      = (pix out i || decide (start ≤ i ∧ i ≤ e)) := by
  have harray := runsArray_pix (start % 16) (Nat.mod_lt _ (by decide)) (e % 16)
    (Nat.mod_lt _ (by decide)) (i % 8) (Nat.mod_lt _ (by decide))
  rw [pix_set (by rwa [List.length_set]), pix_set hj]
  by_cases hsecond : i / 8 = 2 * (start / 16) + 1
  · rw [if_pos hsecond, hb', bytePix_or, harray.2, pix, hsecond, List.getD_eq_getElem?_getD,
      List.getElem?_set_ne (Nat.ne_of_lt (Nat.lt_succ_self _)), ← List.getD_eq_getElem?_getD]
    exact congrArg _ (decide_eq_decide.mpr (run_second hword hsecond))
  · rw [if_neg hsecond]
    by_cases hfirst : i / 8 = 2 * (start / 16)
    · rw [if_pos hfirst, hb, bytePix_or, harray.1, pix, hfirst]
      exact congrArg _ (decide_eq_decide.mpr (run_first hword hfirst))
    · rw [if_neg hfirst, decide_eq_false (run_outside hword hfirst hsecond), Bool.or_false]

theorem run_middle {e : Nat} (hl : start / 8 < i / 8) (hr : i / 8 < e / 8) :
    i % 8 ≤ 7 ∧ start ≤ i ∧ i ≤ e := by
  omega

theorem run_right {e : Nat} (hlr : start / 8 < e / 8) (hi : i / 8 = e / 8) :
    start ≤ i ∧ (i % 8 ≤ e % 8 ↔ start ≤ i ∧ i ≤ e) := by
  omega

theorem run_left {e : Nat} (hlr : start / 8 < e / 8) (hi : i / 8 = start / 8) :
    start % 8 ≤ i % 8 ↔ start ≤ i ∧ i ≤ e := by
  omega

theorem run_beyond {e : Nat} (hm : ¬ (start / 8 < i / 8 ∧ i / 8 < e / 8)) (hl : i / 8 ≠ start / 8)
    (hr : i / 8 ≠ e / 8) : ¬ (start ≤ i ∧ i ≤ e) := by
  rintro ⟨hs, he⟩
  exact hm ⟨Nat.lt_of_le_of_ne (Nat.div_le_div_right hs) hl.symm,
    Nat.lt_of_le_of_ne (Nat.div_le_div_right he) hr⟩

theorem setRun_bytes {e : Nat} (hlr : start / 8 < e / 8) (hj : start / 8 < out.length)
    (hj' : e / 8 < out.length) (hwhite : ∀ i, start ≤ i → i < w → pix out i = false) (hi : i < w)
    {b : UInt8} (hb : b = out.getD (start / 8) 0 ||| 0xFF >>> UInt8.ofNat (start % 8)) :
    pix ((((out.set (start / 8) b).set (e / 8) (0xFF <<< UInt8.ofNat (7 - e % 8))).take
        (start / 8 + 1) ++ List.replicate (e / 8 - (start / 8 + 1)) (0xFF : UInt8)
        ++ ((out.set (start / 8) b).set (e / 8) (0xFF <<< UInt8.ofNat (7 - e % 8))).drop (e / 8))) i
      = (pix out i || decide (start ≤ i ∧ i ≤ e)) := by
  rw [pix, getD_spanned hlr (by rw [List.length_set, List.length_set]; exact hj')]
  by_cases hmiddle : start / 8 < i / 8 ∧ i / 8 < e / 8
  · obtain ⟨hseven, hin⟩ := run_middle hmiddle.1 hmiddle.2
    have hset : bytePix 0xFF (i % 8) = true :=
      (bytePix_upTo 7 (by decide) (i % 8) (Nat.mod_lt _ (by decide))).trans (decide_eq_true hseven)
    rw [if_pos hmiddle, hset, decide_eq_true hin, Bool.or_true]
  · rw [if_neg hmiddle, ← pix, pix_set (by rwa [List.length_set]), pix_set hj]
    by_cases hright : i / 8 = e / 8
    · obtain ⟨hs, hiff⟩ := run_right hlr hright
      rw [if_pos hright, hwhite i hs hi, Bool.false_or,
        bytePix_upTo (e % 8) (Nat.mod_lt _ (by decide)) (i % 8) (Nat.mod_lt _ (by decide))]
      exact decide_eq_decide.mpr hiff
    · rw [if_neg hright]
      by_cases hleft : i / 8 = start / 8
      · rw [if_pos hleft, hb, bytePix_or, bytePix_from (start % 8) (Nat.mod_lt _ (by decide)) (i % 8)
          (Nat.mod_lt _ (by decide)), pix, hleft]
        exact congrArg _ (decide_eq_decide.mpr (run_left hlr hleft))
      · rw [if_neg hleft, decide_eq_false (run_beyond hmiddle hleft hright), Bool.or_false]

/-- **`set_run` draws the pixels of the run**, if those from its start on are white. -/
theorem setRun_pix (hmax : start + len ≤ 2 ^ 31)
    (hwhite : ∀ i, start ≤ i → i < w → pix out i = false) (h : setRun out start len w = .ok out')
    (hi : i < w) : pix out' i = (pix out i || decide (start ≤ i ∧ i < start + len)) := by
  rw [setRun] at h
  dsimp only at h
  rw [int32_self (by lia) (by lia), if_neg (Int.not_lt.mpr (Int.natCast_nonneg start))] at h
  generalize hend : (if (w : Int) ≤ (start : Int) + len - 1 then (w : Int) - 1
    else (start : Int) + len - 1) = endPos at h
  have hrun : i < start + len ↔ (i : Int) ≤ endPos := by
    clear hwhite h hmax
    rw [← hend]
    split <;> lia
  rw [show decide (start ≤ i ∧ i < start + len) = decide (start ≤ i ∧ (i : Int) ≤ endPos) from
    decide_eq_decide.mpr (and_congr_right fun _ => hrun)]
  clear hend hrun hmax
  rcases Int.lt_or_le endPos 0 with hneg | hnonneg
  · have hword : ¬ endPos / 16 = (start : Int) / 16 := fun heq => by
      have hdiv := Int.ediv_neg_of_neg_of_pos hneg (by decide : (0 : Int) < 16)
      exact absurd (heq ▸ Int.natCast_nonneg (start / 16)) (Int.not_le.mpr hdiv)
    have hlt : ¬ (start : Int) < endPos :=
      Int.not_lt.mpr (Int.le_trans hneg.le (Int.natCast_nonneg start))
    have hempty : ¬ (start ≤ i ∧ (i : Int) ≤ endPos) := fun hin =>
      absurd (Int.lt_of_le_of_lt hin.2 hneg) (Int.not_lt.mpr (Int.natCast_nonneg i))
    rw [if_neg hword, if_neg hlt] at h
    cases h
    rw [decide_eq_false hempty, Bool.or_false]
  obtain ⟨e, rfl⟩ := Int.eq_ofNat_of_zero_le hnonneg
  rw [show decide (start ≤ i ∧ (i : Int) ≤ e) = decide (start ≤ i ∧ i ≤ e) from
    decide_eq_decide.mpr (and_congr_right fun _ => Int.ofNat_le)]
  by_cases hword : (e : Int) / 16 = (start : Int) / 16
  · have hindex : (2 * ((start : Int) / 16)).toNat = 2 * (start / 16) := by norm_cast
    have hleft : ((start : Int) % 16).toNat = start % 16 := by norm_cast
    have hright : ((e : Int) % 16).toNat = e % 16 := by norm_cast
    rw [if_pos hword, hindex, hleft, hright] at h
    split at h
    case isTrue => exact absurd h (by rintro ⟨⟩)
    case isFalse =>
      obtain ⟨buf₁, hbuf₁, h⟩ := bind_eq_ok.mp h
      obtain ⟨hj, rfl⟩ := store_ok hbuf₁
      obtain ⟨hj', rfl⟩ := store_ok h
      rw [List.length_set] at hj'
      exact setRun_word (by exact_mod_cast hword) hj hj' rfl rfl
  · rw [if_neg hword] at h
    by_cases hlt : (start : Int) < e
    · have hl : ((start : Int) / 8).toNat = start / 8 := by norm_cast
      have hr : ((e : Int) / 8).toNat = e / 8 := by norm_cast
      have hl' : ((start : Int) % 8).toNat = start % 8 := by norm_cast
      have hr' : ((e : Int) % 8).toNat = e % 8 := by norm_cast
      have hlr : start / 8 < e / 8 := by
        clear h hl hr hl' hr'
        lia
      rw [if_pos hlt, hl, hr, hl', hr'] at h
      split at h
      case isTrue => exact absurd h (by rintro ⟨⟩)
      case isFalse =>
        obtain ⟨buf₁, hbuf₁, h⟩ := bind_eq_ok.mp h
        obtain ⟨hj, rfl⟩ := store_ok hbuf₁
        obtain ⟨buf₂, hbuf₂, h⟩ := bind_eq_ok.mp h
        obtain ⟨hj', rfl⟩ := store_ok hbuf₂
        cases h
        rw [List.length_set] at hj'
        exact setRun_bytes hlr hj hj' hwhite hi rfl
    · rw [if_neg hlt] at h
      cases h
      have hempty : ¬ (start ≤ i ∧ i ≤ e) := fun hin => by
        have hsame : start = e := Nat.le_antisymm (hin.1.trans hin.2)
          (Nat.le_of_not_lt fun hse => hlt (Int.ofNat_lt.mpr hse))
        exact hword (by rw [hsame])
      rw [decide_eq_false hempty, Bool.or_false]

/-! ## The pen -/

/-- A pen on a row: where it is, whether that is still the imaginary pixel before the row, its
colour, and what is black. -/
structure Pen where
  pos : Nat
  start : Bool
  white : Bool
  black : Nat → Bool

inductive Item
  | run (len : Nat)
  | vertical (d : Int)
  | pass
  deriving DecidableEq, Repr

def Pen.atStart : Pen := ⟨0, true, true, fun _ => false⟩

def Pen.to (p : Pen) (q : Nat) (white : Bool) : Pen :=
  ⟨q, false, white, fun i => p.black i || (!p.white && decide (p.pos ≤ i ∧ i < q))⟩

def Pen.b1 (p : Pen) (ref : Nat → Bool) (w : Nat) : Nat := Scan.b1 ref w p.start (!p.white) p.pos

def Pen.draw (ref : Nat → Bool) (w : Nat) (p : Pen) : Item → Option Pen
  | .run len => some (p.to (p.pos + len) (if len ≤ 63 then !p.white else p.white))
  | .vertical d =>
    if (p.pos : Int) ≤ p.b1 ref w + d ∧ (p.b1 ref w : Int) + d ≤ w then
      some (p.to ((p.b1 ref w : Int) + d).toNat (!p.white))
    else none
  | .pass => some (p.to (b2 ref w (!p.white) (p.b1 ref w)) p.white)

def Pen.drawAll (ref : Nat → Bool) (w : Nat) (p : Pen) (items : List Item) : Option Pen :=
  items.foldlM (Pen.draw ref w) p

def DescribesRow (ref : Nat → Bool) (w : Nat) (items : List Item) (row : List UInt8) : Prop :=
  ∃ p, Pen.atStart.drawAll ref w items = some p ∧ p.pos = w ∧ ∀ i < w, pix row i = p.black i

variable {p p' : Pen} {ref ref' : Nat → Bool} {item : Item} {items : List Item}

theorem Pen.drawAll_cons :
    p.drawAll ref w (item :: items) = (p.draw ref w item).bind fun p' => p'.drawAll ref w items :=
  List.foldlM_cons

theorem Pen.drawAll_append {more : List Item} :
    p.drawAll ref w (items ++ more) = (p.drawAll ref w items).bind fun p' => p'.drawAll ref w more :=
  List.foldlM_append

def Pen.Ahead (p : Pen) : Prop := ∀ i, p.pos ≤ i → p.black i = false

theorem Pen.ahead_to {q : Nat} {white : Bool} (h : p.Ahead) (hq : p.pos ≤ q) :
    (p.to q white).Ahead := by
  intro i hi
  have hi : q ≤ i := hi
  show (p.black i || _) = false
  rw [h i (by omega), decide_eq_false (by omega), Bool.and_false, Bool.or_false]

def ShowsPen (w : Nat) (out : List UInt8) (p : Pen) : Prop :=
  (w + 7) / 8 < out.length ∧ ∀ i < w, pix out i = p.black i

theorem setRunIf_shows {a : Int} {q : Nat} {white : Bool} (hw : g.rowLen = w)
    (hwhite : g.white = p.white) (hahead : p.Ahead) (hshows : ShowsPen w out p)
    (hq : p.pos ≤ q) (hmax : q ≤ 2 ^ 31) (ha : a = p.pos)
    (h : setRunIf g out a ((q : Int) - a) = .ok out') : ShowsPen w out' (p.to q white) := by
  subst ha
  obtain ⟨hlen, hpix⟩ := hshows
  rw [setRunIf, hwhite] at h
  cases hcolour : p.white with
  | true =>
    rw [hcolour, if_pos rfl] at h
    cases h
    refine ⟨hlen, fun i hi => ?_⟩
    show pix out i = (p.black i || (!p.white && decide (p.pos ≤ i ∧ i < q)))
    rw [hcolour, Bool.not_true, Bool.false_and, Bool.or_false]
    exact hpix i hi
  | false =>
    rw [hcolour, if_neg Bool.false_ne_true, hw, show (q : Int) - p.pos = (q - p.pos : Nat) by lia]
      at h
    obtain ⟨out₁, hrun, hlen₁⟩ :=
      setRun_returns ((q - p.pos : Nat) : Int) (Int.natCast_nonneg p.pos) hlen
    have hout : out' = out₁ := Except.ok.inj (h.symm.trans hrun)
    refine ⟨by rwa [hout, hlen₁], fun i hi => ?_⟩
    show pix out' i = (p.black i || (!p.white && decide (p.pos ≤ i ∧ i < q)))
    rw [setRun_pix (by lia) (fun i hlo hi => (hpix i hi).trans (hahead i hlo)) h hi, hpix i hi,
      hcolour, Bool.not_false, Bool.true_and]
    congr 1
    exact decide_eq_decide.mpr (by lia)

theorem setRunIf_room {a len : Int} (hw : g.rowLen = w) (ha : 0 ≤ a)
    (hroom : (w + 7) / 8 < out.length) (h : setRunIf g out a len = .ok out') :
    (w + 7) / 8 < out'.length := by
  rw [← hw] at hroom ⊢
  obtain ⟨out₁, hrun, hlen⟩ := setRunIf_returns g a len (fun _ => ha) hroom
  rw [Except.ok.inj (h.symm.trans hrun), hlen]
  exact hroom

/-! ## One-dimensional rows -/

def runsRead : Nat → Gb → Bool → List Item
  | 0, _, _ => []
  | rounds + 1, gb, white =>
    match parseCode gb (runTable white) with
    | .ok (.gotCode len, gb') => .run len :: runsRead rounds gb' (if len ≤ 63 then !white else white)
    | _ => []

/-- No pen on the way gets as far as an `int` does. -/
def InRange (ref : Nat → Bool) (w : Nat) (p : Pen) (items : List Item) : Prop :=
  ∀ k p', p.drawAll ref w (items.take k) = some p' → p'.pos < 2 ^ 31

theorem InRange.first (h : InRange ref w p (item :: items)) (hp : p.draw ref w item = some p') :
    p'.pos < 2 ^ 31 ∧ InRange ref w p' items := by
  constructor
  · refine h 1 p' ?_
    rw [List.take_succ_cons, List.take_zero, Pen.drawAll_cons, hp]
    rfl
  · intro k q hq
    refine h (k + 1) q ?_
    rw [List.take_succ_cons, Pen.drawAll_cons, hp]
    exact hq

theorem inRange_nil (hp : p.pos < 2 ^ 31) : InRange ref w p [] := by
  intro k p' h
  rw [List.take_nil] at h
  cases h
  exact hp

theorem inRange_cons (hp : p.pos < 2 ^ 31)
    (h : ∀ p', p.draw ref w item = some p' → InRange ref w p' items) :
    InRange ref w p (item :: items) := by
  intro k q hq
  rcases k with _ | k
  · cases hq
    exact hp
  · rw [List.take_succ_cons, Pen.drawAll_cons] at hq
    obtain ⟨p', hp', hq⟩ := Option.bind_eq_some_iff.mp hq
    exact h p' hp' k q hq

theorem draw_vertical_le {d : Int} (h : p.draw ref w (.vertical d) = some p') : p'.pos ≤ w := by
  rw [Pen.draw] at h
  split at h
  · rename_i hd
    cases h
    show ((p.b1 ref w : Int) + d).toNat ≤ w
    lia
  · cases h

structure SameRow (g g' : DecInst) : Prop where
  priorP : g'.priorP.take g.bytesInRow = g.priorP.take g.bytesInRow
  rowLen : g'.rowLen = g.rowLen
  bytesInRow : g'.bytesInRow = g.bytesInRow
  inputFormat : g'.inputFormat = g.inputFormat
  twoDim : g'.twoDim = g.twoDim
  length : g'.priorP.length = g.priorP.length

theorem SameRow.refl : SameRow g g := ⟨rfl, rfl, rfl, rfl, rfl, rfl⟩

structure At1d (w : Nat) (p : Pen) (g : DecInst) (out : List UInt8) : Prop where
  pos : g.pixelPos = p.pos
  white : g.white = p.white
  ahead : p.Ahead
  shows : ShowsPen w out p

structure Ends1d (w : Nat) (g : DecInst) (p : Pen) (r : Ret × DecInst × List UInt8) : Prop where
  same : SameRow g r.2.1
  room : (w + 7) / 8 < r.2.2.length
  good : r.1.producedRow = true → r.1.inputError = false →
    p.pos = w ∧ ShowsPen w r.2.2 p ∧ r.2.1.refRowInvalid = false
  copied : r.1.producedRow = true → r.1.inputError = true →
    r.2.2.take g.bytesInRow = g.priorP.take g.bytesInRow ∧ r.2.1.refRowInvalid = g.refRowInvalid
  going : r.1.producedRow = false →
    At1d w p r.2.1 r.2.2 ∧ r.2.1.refRowInvalid = g.refRowInvalid ∧ r.1.inputError = false

theorem take_repeatRow (hprior : g.bytesInRow ≤ g.priorP.length) :
    (repeatRow g out).take g.bytesInRow = g.priorP.take g.bytesInRow := by
  rw [repeatRow, copyRow, List.take_left' (List.length_take_of_le hprior)]

theorem repeatRow_room (hprior : g.bytesInRow ≤ g.priorP.length) {n : Nat} (hout : n < out.length) :
    n < (repeatRow g out).length := by
  rw [repeatRow, copyRow, List.length_append, List.length_take_of_le hprior, List.length_drop]
  lia

theorem atEol1d_ends {ret : Ret} (hw : g.rowLen = w) (hprior : g.bytesInRow ≤ g.priorP.length)
    (hat : At1d w p g out) (hrow : ret.producedRow = false) (herr : ret.inputError = false) :
    Ends1d w g p (unusual1d.atEol g out ret) := by
  rw [unusual1d.atEol]
  by_cases hstart : g.pixelPos = 0
  · rw [if_pos hstart]
    exact ⟨.refl, hat.shows.1, fun h => absurd (hrow.symm.trans h) Bool.false_ne_true,
      fun h => absurd (hrow.symm.trans h) Bool.false_ne_true, fun _ => ⟨hat, rfl, herr⟩⟩
  · rw [if_neg hstart]
    by_cases hdone : g.pixelPos = g.rowLen
    · rw [if_pos hdone]
      have hpos : p.pos = w := by
        have := hat.pos
        lia
      exact ⟨⟨rfl, rfl, rfl, rfl, rfl, rfl⟩, hat.shows.1, fun _ _ => ⟨hpos, hat.shows, rfl⟩,
        fun _ h => absurd (herr.symm.trans h) Bool.false_ne_true, (by rintro ⟨⟩)⟩
    · rw [if_neg hdone]
      exact ⟨.refl, repeatRow_room hprior hat.shows.1, fun _ => (by rintro ⟨⟩),
        fun _ _ => ⟨take_repeatRow hprior, rfl⟩, (by rintro ⟨⟩)⟩

theorem unusual1d_ends (code : Code) (hw : g.rowLen = w) (hprior : g.bytesInRow ≤ g.priorP.length)
    (hat : At1d w p g out) : Ends1d w g p (unusual1d g out code) := by
  cases code with
  | gotCode v => exact ⟨.refl, hat.shows.1, (nomatch ·), (nomatch ·), fun _ => ⟨hat, rfl, rfl⟩⟩
  | needMore => exact ⟨.refl, hat.shows.1, (nomatch ·), (nomatch ·), fun _ => ⟨hat, rfl, rfl⟩⟩
  | badCode => exact ⟨.refl, repeatRow_room hprior hat.shows.1, fun _ => (nomatch ·),
        fun _ _ => ⟨take_repeatRow hprior, rfl⟩, (nomatch ·)⟩
  | fill => exact atEol1d_ends hw hprior hat rfl rfl
  | hitEol => exact atEol1d_ends hw hprior hat rfl rfl

theorem decodeRun1d_at {len : Nat} {r : DecInst × List UInt8} (hw : g.rowLen = w)
    (hat : At1d w p g out) (hmax : p.pos + len < 2 ^ 31) (h : decodeRun1d g out len = .ok r) :
    At1d w (p.to (p.pos + len) (if len ≤ 63 then !p.white else p.white)) r.1 r.2 ∧
      r.1 = { g with pixelPos := r.1.pixelPos, white := if len ≤ 63 then !g.white else g.white } := by
  rw [decodeRun1d] at h
  obtain ⟨out', hrun, h⟩ := bind_eq_ok.mp h
  cases h
  have hrun : setRunIf g out g.pixelPos (((p.pos + len : Nat) : Int) - g.pixelPos) = .ok out' := by
    rw [hat.pos, show ((p.pos + len : Nat) : Int) - (p.pos : Int) = len by omega, ← hat.pos]
    exact hrun
  refine ⟨⟨?_, ?_, Pen.ahead_to hat.ahead (Nat.le_add_right _ _), ?_⟩, rfl⟩
  · show int32 (g.pixelPos + len) = (p.pos + len : Nat)
    rw [hat.pos, int32_self (by omega) (by omega)]
    omega
  · show (if len ≤ 63 then !g.white else g.white) = if len ≤ 63 then !p.white else p.white
    rw [hat.white]
  · exact setRunIf_shows hw hat.white hat.ahead hat.shows (Nat.le_add_right _ _) (by omega) hat.pos hrun

/-- **The decoder of a one-dimensional row draws the runs that it reads.** -/
theorem decodeRuns_draws (rounds : Nat) {r : Ret × DecInst × List UInt8} (hw : g.rowLen = w)
    (hprior : g.bytesInRow ≤ g.priorP.length) (hat : At1d w p g out)
    (hrange : InRange ref w p (runsRead rounds g.gb g.white))
    (h : decodeRuns rounds g out = .ok r) :
    ∃ p', p.drawAll ref w (runsRead rounds g.gb g.white) = some p' ∧ Ends1d w g p' r := by
  induction rounds generalizing g out p with
  | zero => cases h
  | succ rounds ih =>
    rw [decodeRuns] at h
    rw [runsRead] at hrange ⊢
    obtain ⟨⟨code, gb⟩, hparse, h⟩ := bind_eq_ok.mp h
    rw [hparse] at hrange ⊢
    have hat' : At1d w p { g with gb := gb } out := ⟨hat.pos, hat.white, hat.ahead, hat.shows⟩
    have hunusual : ∀ code, Ends1d w g p (unusual1d { g with gb := gb } out code) := by
      intro code
      have hends := unusual1d_ends (g := { g with gb := gb }) code hw hprior hat'
      exact ⟨⟨hends.same.priorP, hends.same.rowLen, hends.same.bytesInRow, hends.same.inputFormat,
        hends.same.twoDim, hends.same.length⟩, hends.room, hends.good, hends.copied, hends.going⟩
    cases code with
    | gotCode len =>
      dsimp only at h hrange ⊢
      obtain ⟨hmax, hrest⟩ := hrange.first rfl
      obtain ⟨⟨g₁, out₁⟩, hrun, h⟩ := bind_eq_ok.mp h
      obtain ⟨hat₁, hg₁⟩ := decodeRun1d_at (g := { g with gb := gb }) hw hat' hmax hrun
      dsimp only at hat₁ hg₁ h
      have hgb : g₁.gb = gb := by rw [hg₁]
      have hwhite : g₁.white = if len ≤ 63 then !g.white else g.white := by rw [hg₁]
      rw [← hgb, ← hwhite] at hrest ⊢
      obtain ⟨p', hdraw, hends⟩ := ih (by rw [hg₁]; exact hw) (by rw [hg₁]; exact hprior) hat₁ hrest h
      refine ⟨p', ?_, ?_⟩
      · rw [Pen.drawAll_cons]
        exact hdraw
      · rw [hg₁] at hends
        exact ⟨⟨hends.same.priorP, hends.same.rowLen, hends.same.bytesInRow, hends.same.inputFormat,
          hends.same.twoDim, hends.same.length⟩, hends.room, hends.good, hends.copied, hends.going⟩
    | needMore => cases h; exact ⟨p, rfl, hunusual _⟩
    | badCode => cases h; exact ⟨p, rfl, hunusual _⟩
    | fill => cases h; exact ⟨p, rfl, hunusual _⟩
    | hitEol => cases h; exact ⟨p, rfl, hunusual _⟩

/-! ## Two-dimensional rows -/

def itemsOf (state : State2d) (value : Nat) : List Item :=
  match state with
  | .normal2d =>
    if value = 8 then [] else if value ≤ 6 then [.vertical ((value : Int) - 3)] else [.pass]
  | _ => [.run value]

def modesRead : Nat → Decoding → List Item
  | 0, _ => []
  | rounds + 1, s =>
    match nextTable s.g with
    | .inl _ => []
    | .inr tbl =>
      match parseCode s.g.gb tbl with
      | .ok (.gotCode value, gb) =>
        itemsOf s.g.state2d value ++
          match decodeCode2d { s with g := { s.g with gb := gb } } value with
          | .ok (true, s') => modesRead rounds s'
          | _ => []
      | _ => []

/-- The decoder of a two-dimensional row where the pen is, below a row. -/
structure Row2d (w : Nat) (ref : Nat → Bool) (p : Pen) (g : DecInst) : Prop where
  rowLen : g.rowLen = w
  a0 : g.a0 = if p.start then -1 else (p.pos : Int)
  start : p.start = true → p.pos = 0
  white : g.white = p.white
  ahead : p.Ahead
  inside : g.state2d = .normal2d → p.pos ≤ w
  above : ∀ i < w, pix g.priorP i = ref i

/-- The same within a call: `b1` may be known, and is where the search goes on from. -/
structure At2d (w : Nat) (ref : Nat → Bool) (p : Pen) (s : Decoding) : Prop where
  row : Row2d w ref p s.g
  shows : ShowsPen w s.out p
  b1 : s.g.state2d = .normal2d → s.needB0 = false → p.start = false ∧
    ∃ b : Nat, s.b1 = b ∧ next ref (!p.white) w (b + 1) = p.b1 ref w

theorem scanTo_ref {skip : Bool} {a r : Nat} (href : ∀ i < w, pix buf i = ref i)
    (h : scanTo skip buf a w = .ok r) : r = next ref skip w a := by
  rw [(scanTo_ok h).2]
  exact next_congr fun k _ hk => href k hk

theorem findB1_at {s' : Decoding} (hat : At2d w ref p s) (hnormal : s.g.state2d = .normal2d)
    (h : findB1 s = .ok s') :
    s'.b1 = p.b1 ref w ∧ s'.g = { s.g with a0 := p.pos } ∧ s'.out = s.out := by
  have ha0 := hat.row.a0
  have hwhite := hat.row.white
  have hrow := hat.row.rowLen
  have href := hat.row.above
  rw [findB1] at h
  cases hstart : p.start with
  | true =>
    rw [hstart, if_pos rfl] at ha0
    rw [ha0, if_pos (by decide)] at h
    obtain ⟨b, hb, h⟩ := bind_eq_ok.mp h
    cases h
    rw [hrow] at hb
    have hb := scanTo_ref (a := 0) href hb
    refine ⟨?_, ?_, rfl⟩
    · rw [Pen.b1, hstart, hat.row.start hstart, hb, hwhite]
      rfl
    · rw [hat.row.start hstart]
      rfl
  | false =>
    rw [hstart, if_neg Bool.false_ne_true] at ha0
    have hg : s.g = { s.g with a0 := p.pos } := by rw [← ha0]
    rw [ha0, if_neg (by omega)] at h
    cases hneed : s.needB0 with
    | true =>
      rw [hneed, if_pos rfl] at h
      obtain ⟨b₀, hb₀, h⟩ := bind_eq_ok.mp h
      obtain ⟨b, hb, h⟩ := bind_eq_ok.mp h
      cases h
      rw [hrow] at hb₀ hb
      have hb₀ := scanTo_ref href hb₀
      have hb := scanTo_ref href hb
      refine ⟨?_, hg, rfl⟩
      show (b : Int) = p.b1 ref w
      rw [Pen.b1, hstart, hb, hb₀, hwhite, Scan.b1, Bool.not_not]
    | false =>
      rw [hneed, if_neg Bool.false_ne_true] at h
      obtain ⟨-, b₀, hb₀, hnext⟩ := hat.b1 hnormal hneed
      obtain ⟨b, hb, h⟩ := bind_eq_ok.mp h
      cases h
      rw [hrow, hb₀] at hb
      have hb := scanTo_ref (a := b₀ + 1) href hb
      refine ⟨?_, hg, rfl⟩
      show (b : Int) = p.b1 ref w
      rw [hb, hwhite, hnext]

def SameBut (g g' : DecInst) : Prop :=
  ∃ a white state, g' = { g with a0 := a, white := white, state2d := state }

structure Found (w : Nat) (ref : Nat → Bool) (p : Pen) (s : Decoding) : Prop where
  rowLen : s.g.rowLen = w
  a0 : s.g.a0 = p.pos
  white : s.g.white = p.white
  ahead : p.Ahead
  inside : p.pos ≤ w
  above : ∀ i < w, pix s.g.priorP i = ref i
  shows : ShowsPen w s.out p
  b1 : s.b1 = p.b1 ref w

theorem verticalMode_at {d : Int} {good : Bool} {s' : Decoding} (hf : Found w ref p s)
    (hw : w < 2 ^ 31) (h : verticalMode s d = .ok (good, s')) :
    SameBut s.g s'.g ∧ (w + 7) / 8 < s'.out.length ∧ (good = true →
      ∃ p', p.draw ref w (.vertical d) = some p' ∧ At2d w ref p' s') := by
  rw [verticalMode] at h
  obtain ⟨out', hrun, h⟩ := bind_eq_ok.mp h
  have hroom : (w + 7) / 8 < out'.length :=
    setRunIf_room hf.rowLen (by rw [hf.a0]; exact Int.natCast_nonneg _) hf.shows.1 hrun
  by_cases hbad : s.b1 + d < s.g.a0 ∨ (s.g.rowLen : Int) < s.b1 + d
  · rw [if_pos hbad] at h
    cases h
    exact ⟨⟨_, _, _, rfl⟩, hroom, (by rintro ⟨⟩)⟩
  · rw [if_neg hbad] at h
    cases h
    refine ⟨⟨_, _, _, rfl⟩, hroom, fun _ => ?_⟩
    rw [hf.rowLen, hf.a0, hf.b1] at hbad
    have hin := hf.inside
    obtain ⟨a, ha⟩ := Int.eq_ofNat_of_zero_le (by lia : 0 ≤ (p.b1 ref w : Int) + d)
    have hle : p.pos ≤ a ∧ a ≤ w := by lia
    refine ⟨p.to a (!p.white), ?_, ⟨hf.rowLen, ?_, (by rintro ⟨⟩), ?_, Pen.ahead_to hf.ahead hle.1,
      fun _ => hle.2, hf.above⟩, ?_, ?_⟩
    · rw [Pen.draw, if_pos (by lia), ha]
      rfl
    · show s.b1 + d = a
      rw [hf.b1, ha]
    · show (!s.g.white) = !p.white
      rw [hf.white]
    · rw [hf.a0, hf.b1, ha] at hrun
      exact setRunIf_shows hf.rowLen hf.white hf.ahead hf.shows hle.1 (by lia) rfl hrun
    · intro _ hneed
      refine ⟨rfl, p.b1 ref w, hf.b1, ?_⟩
      -- the change is at the element or right before it
      have hnear : ¬ d < -1 ∧ ¬ 0 < d := by
        simpa [decide_eq_false_iff_not] using hneed
      have hvertical : Scan.b1 ref w false (!!p.white) a = b2 ref w (!p.white) (p.b1 ref w) :=
        b1_vertical hle.1 (by show a ≤ p.b1 ref w; lia) (by show p.b1 ref w ≤ a + 1; lia)
      rw [b2] at hvertical
      exact hvertical.symm

theorem passMode_at {s' : Decoding} (hf : Found w ref p s) (hw : w < 2 ^ 31)
    (h : passMode s = .ok s') :
    SameBut s.g s'.g ∧ ∃ p', p.draw ref w .pass = some p' ∧ At2d w ref p' s' := by
  rw [passMode] at h
  obtain ⟨b, hb, h⟩ := bind_eq_ok.mp h
  obtain ⟨out', hrun, h⟩ := bind_eq_ok.mp h
  cases h
  rw [hf.rowLen, hf.b1] at hb
  have hb := scanTo_ref (a := p.b1 ref w + 1) hf.above hb
  have hb : b = b2 ref w (!p.white) (p.b1 ref w) := by
    rw [hb, b2, Bool.not_not, hf.white]
  have hle : p.pos ≤ b ∧ b ≤ w := by
    constructor
    · rw [hb]
      exact Nat.le_trans (le_b1 hf.inside) (le_b2 b1_le)
    · rw [hb]
      exact b2_le
  refine ⟨⟨_, _, _, rfl⟩, p.to b p.white, by rw [Pen.draw, ← hb], ⟨hf.rowLen, rfl, (by rintro ⟨⟩), hf.white,
    Pen.ahead_to hf.ahead hle.1, fun _ => hle.2, hf.above⟩, ?_, fun _ _ => ⟨rfl, b, rfl, ?_⟩⟩
  · rw [hf.a0] at hrun
    exact setRunIf_shows hf.rowLen hf.white hf.ahead hf.shows hle.1 (by lia) rfl hrun
  · show next ref (!p.white) w (b + 1) = Scan.b1 ref w false (!p.white) b
    rw [hb]
    exact (b1_pass _).symm

theorem Row2d.a0_eq (h : Row2d w ref p g) : (if g.a0 < 0 then 0 else g.a0) = (p.pos : Int) := by
  rw [h.a0]
  cases hstart : p.start with
  | true =>
    rw [if_pos rfl, if_pos (by decide), h.start hstart]
    rfl
  | false => rw [if_neg Bool.false_ne_true, if_neg (by omega)]

theorem Row2d.to {g' : DecInst} {q : Nat} {white : Bool} (h : Row2d w ref p g)
    (hrowLen : g'.rowLen = g.rowLen) (hprior : g'.priorP = g.priorP) (ha0 : g'.a0 = q)
    (hwhite : g'.white = white) (hq : p.pos ≤ q) (hin : g'.state2d = .normal2d → q ≤ w) :
    Row2d w ref (p.to q white) g' := by
  refine ⟨hrowLen.trans h.rowLen, ?_, (nomatch ·), hwhite, Pen.ahead_to h.ahead hq, hin, ?_⟩
  · rw [ha0]
    rfl
  · rw [hprior]
    exact h.above

theorem horizCode_eq {len : Nat} {g₁ : DecInst}
    (hg : (if s.g.a0 < 0 then { s.g with a0 := 0 } else s.g) = g₁) :
    horizCode s len = (do
      let out ← setRunIf g₁ s.out g₁.a0 len
      if 63 < len then .ok (true, { s with g := { g₁ with a0 := int32 (g₁.a0 + len) }, out })
      else
        match g₁.state2d with
        | .horiz1st => .ok (true, { s with
            g := { g₁ with a0 := int32 (g₁.a0 + len), white := !g₁.white, state2d := .horiz2nd }
            out })
        | _ => .ok (decide (int32 (g₁.a0 + len) ≤ g₁.rowLen), { s with
            g := { g₁ with a0 := int32 (g₁.a0 + len), white := !g₁.white, state2d := .normal2d }
            needB0 := true
            out })) := by
  subst hg
  rfl

theorem horizCode_at {len : Nat} {good : Bool} {s' : Decoding} (hat : At2d w ref p s)
    (hstate : s.g.state2d ≠ .normal2d) (hmax : p.pos + len < 2 ^ 31)
    (h : horizCode s len = .ok (good, s')) :
    SameBut s.g s'.g ∧ (w + 7) / 8 < s'.out.length ∧ (good = true →
      ∃ p', p.draw ref w (.run len) = some p' ∧ At2d w ref p' s') := by
  have hrow := hat.row
  obtain ⟨g₁, hg₁⟩ : ∃ g₁, g₁ = { s.g with a0 := (p.pos : Int) } := ⟨_, rfl⟩
  have hstart : (if s.g.a0 < 0 then { s.g with a0 := 0 } else s.g) = g₁ := by
    rw [hg₁, ← hrow.a0_eq]
    split <;> rfl
  have hpos : g₁.a0 = p.pos := by rw [hg₁]
  have hwhite : g₁.white = p.white := by rw [hg₁]; exact hrow.white
  have hrowLen : g₁.rowLen = s.g.rowLen := by rw [hg₁]
  have hprior : g₁.priorP = s.g.priorP := by rw [hg₁]
  have hstate₁ : g₁.state2d = s.g.state2d := by rw [hg₁]
  have hsame : ∀ a white state,
      SameBut s.g { g₁ with a0 := a, white := white, state2d := state } :=
    fun a white state => ⟨a, white, state, by rw [hg₁]⟩
  rw [horizCode_eq hstart] at h
  clear hg₁ hstart
  obtain ⟨out', hrun, h⟩ := bind_eq_ok.mp h
  have hint : int32 (g₁.a0 + len) = (p.pos + len : Nat) := by
    rw [hpos, int32_self (by lia) (by lia)]
    lia
  have hshows : ShowsPen w out' (p.to (p.pos + len) (if len ≤ 63 then !p.white else p.white)) := by
    refine setRunIf_shows (hrowLen.trans hrow.rowLen) hwhite hrow.ahead hat.shows
      (Nat.le_add_right _ _) (by lia) hpos ?_
    rw [hpos, show ((p.pos + len : Nat) : Int) - (p.pos : Int) = len by lia, ← hpos]
    exact hrun
  have hle : p.pos ≤ p.pos + len := Nat.le_add_right _ _
  have hdraw : p.draw ref w (.run len)
      = some (p.to (p.pos + len) (if len ≤ 63 then !p.white else p.white)) := rfl
  by_cases hmakeup : 63 < len
  · rw [if_pos hmakeup] at h
    cases h
    have hcolour : (if len ≤ 63 then !p.white else p.white) = p.white :=
      if_neg (Nat.not_le.mpr hmakeup)
    rw [hcolour] at hshows hdraw
    exact ⟨hsame _ _ _, hshows.1, fun _ => ⟨_, hdraw, hrow.to hrowLen hprior hint hwhite hle
      fun h => absurd (hstate₁.symm.trans h) hstate, hshows,
      fun h => absurd (hstate₁.symm.trans h) hstate⟩⟩
  · rw [if_neg hmakeup] at h
    have hcolour : (if len ≤ 63 then !p.white else p.white) = !p.white :=
      if_pos (Nat.not_lt.mp hmakeup)
    rw [hcolour] at hshows hdraw
    have hother : (!g₁.white) = !p.white := by rw [hwhite]
    cases hcase : g₁.state2d with
    | normal2d => exact absurd (hstate₁.symm.trans hcase) hstate
    | horiz1st =>
      rw [hcase] at h
      cases h
      exact ⟨hsame _ _ _, hshows.1, fun _ => ⟨_, hdraw, hrow.to hrowLen hprior hint hother hle (nomatch ·),
        hshows, (nomatch ·)⟩⟩
    | horiz2nd =>
      rw [hcase] at h
      cases h
      refine ⟨hsame _ _ _, hshows.1, fun hgood => ⟨_, hdraw, hrow.to hrowLen hprior hint hother hle
        fun _ => ?_, hshows, fun _ => (nomatch ·)⟩⟩
      have hend : int32 (g₁.a0 + len) ≤ g₁.rowLen := of_decide_eq_true hgood
      rw [hint, hrowLen, hrow.rowLen] at hend
      exact Int.ofNat_le.mp hend

theorem Pen.drawAll_one : p.drawAll ref w [item] = p.draw ref w item := by
  rw [Pen.drawAll_cons]
  cases p.draw ref w item <;> rfl

/-- **A code takes the decoder where it takes the pen**, or the row is corrupt. -/
theorem decodeCode2d_at {value : Nat} {good : Bool} {s' : Decoding} (hat : At2d w ref p s)
    (hw : w < 2 ^ 31)
    (hmax : ∀ p', p.drawAll ref w (itemsOf s.g.state2d value) = some p' → p'.pos < 2 ^ 31)
    (h : decodeCode2d s value = .ok (good, s')) :
    SameBut s.g s'.g ∧ (w + 7) / 8 < s'.out.length ∧ (good = true →
      ∃ p', p.drawAll ref w (itemsOf s.g.state2d value) = some p' ∧ At2d w ref p' s') := by
  by_cases hnormal : s.g.state2d = .normal2d
  · have hitems : itemsOf s.g.state2d value = if value = 8 then []
        else if value ≤ 6 then [.vertical ((value : Int) - 3)] else [.pass] := by
      rw [hnormal]
      rfl
    have hcode : decodeCode2d s value = normalCode s value := by rw [decodeCode2d, hnormal]
    rw [hcode, normalCode] at h
    rw [hitems]
    by_cases hhoriz : value = 8
    · rw [if_pos hhoriz] at h ⊢
      cases h
      exact ⟨⟨_, _, _, rfl⟩, hat.shows.1, fun _ => ⟨p, rfl, ⟨hat.row.rowLen, hat.row.a0, hat.row.start, hat.row.white,
        hat.row.ahead, (by rintro ⟨⟩), hat.row.above⟩, hat.shows, (by rintro ⟨⟩)⟩⟩
    · rw [if_neg hhoriz] at h ⊢
      obtain ⟨s₁, hfind, h⟩ := bind_eq_ok.mp h
      obtain ⟨hb1, hg₁, hout⟩ := findB1_at hat hnormal hfind
      have hrow := hat.row
      have hf : Found w ref p s₁ := by
        refine ⟨?_, ?_, ?_, hrow.ahead, hrow.inside hnormal, ?_, by rw [hout]; exact hat.shows, hb1⟩
        · rw [hg₁]; exact hrow.rowLen
        · rw [hg₁]
        · rw [hg₁]; exact hrow.white
        · rw [hg₁]; exact hrow.above
      have hsame : ∀ g', SameBut s₁.g g' → SameBut s.g g' := by
        rintro g' ⟨a, white, state, rfl⟩
        exact ⟨a, white, state, by rw [hg₁]⟩
      by_cases hvertical : value ≤ 6
      · rw [if_pos hvertical] at h ⊢
        rw [Pen.drawAll_one]
        obtain ⟨hbut, hroom, hgood⟩ := verticalMode_at hf hw h
        exact ⟨hsame _ hbut, hroom, hgood⟩
      · rw [if_neg hvertical] at h ⊢
        obtain ⟨s₂, hpass, h⟩ := bind_eq_ok.mp h
        cases h
        rw [Pen.drawAll_one]
        obtain ⟨hbut, p', hdraw, hat'⟩ := passMode_at hf hw hpass
        exact ⟨hsame _ hbut, hat'.shows.1, fun _ => ⟨p', hdraw, hat'⟩⟩
  · have hitems : itemsOf s.g.state2d value = [.run value] := by
      cases hcase : s.g.state2d with
      | normal2d => exact absurd hcase hnormal
      | horiz1st => rfl
      | horiz2nd => rfl
    have hcode : decodeCode2d s value = horizCode s value := by
      cases hcase : s.g.state2d with
      | normal2d => exact absurd hcase hnormal
      | horiz1st => rw [decodeCode2d, hcase]
      | horiz2nd => rw [decodeCode2d, hcase]
    rw [hitems, Pen.drawAll_one] at hmax ⊢
    rw [hcode] at h
    exact horizCode_at hat hnormal (hmax _ rfl) h

/-! ### The loops -/

/-- What a two-dimensional row comes to: it is described by its codes, or it is a copy of the row
above, or it goes on. -/
structure Ends2d (w : Nat) (ref : Nat → Bool) (p : Pen) (items : List Item) (g : DecInst)
    (r : Ret × DecInst × List UInt8) : Prop where
  same : SameRow g r.2.1
  room : (w + 7) / 8 < r.2.2.length
  good : r.1.producedRow = true → r.1.inputError = false →
    (∃ p', p.drawAll ref w items = some p' ∧ p'.pos = w ∧ ShowsPen w r.2.2 p') ∧
      r.2.1.refRowInvalid = false ∧ g.refRowInvalid = false
  copied : r.1.producedRow = true → r.1.inputError = true →
    r.2.2.take g.bytesInRow = g.priorP.take g.bytesInRow ∧ r.2.1.refRowInvalid = true
  going : r.1.producedRow = false → r.1.inputError = false ∧
    r.2.1.refRowInvalid = g.refRowInvalid ∧
    ∃ p', p.drawAll ref w items = some p' ∧ Row2d w ref p' r.2.1 ∧ ShowsPen w r.2.2 p'

theorem atEol2d_ends {ret : Ret} (hfmt : s.g.inputFormat ≠ .mmr)
    (hprior : s.g.bytesInRow ≤ s.g.priorP.length) (hat : At2d w ref p s)
    (hrow : ret.producedRow = false) (herr : ret.inputError = false) :
    Ends2d w ref p [] s.g (unusual2d.atEol { s.g with state2d := .normal2d } s.out ret) := by
  have hrow' := hat.row
  have ha0 := hrow'.a0
  have hw := hrow'.rowLen
  rw [atEol2d_of_ne (g := { s.g with state2d := .normal2d }) hfmt]
  dsimp only
  by_cases hdone : ¬ s.g.refRowInvalid = true ∧ s.g.a0 = s.g.rowLen
  · rw [if_pos hdone]
    have hpos : p.pos = w := by
      rw [hdone.2] at ha0
      split at ha0 <;> lia
    exact ⟨⟨rfl, rfl, rfl, rfl, rfl, rfl⟩, hat.shows.1, fun _ _ => ⟨⟨p, rfl, hpos, hat.shows⟩,
      Bool.eq_false_iff.mpr hdone.1, Bool.eq_false_iff.mpr hdone.1⟩,
      fun _ h => absurd (herr.symm.trans h) Bool.false_ne_true, (nomatch ·)⟩
  · rw [if_neg hdone]
    by_cases hsome : 0 ≤ s.g.a0
    · rw [if_pos hsome]
      exact ⟨⟨rfl, rfl, rfl, rfl, rfl, rfl⟩, repeatRow_room hprior hat.shows.1, fun _ => (nomatch ·),
        fun _ _ => ⟨take_repeatRow hprior, rfl⟩, (nomatch ·)⟩
    · rw [if_neg hsome]
      have hstart : p.start = true := by
        by_contra hnot
        rw [if_neg hnot] at ha0
        lia
      refine ⟨⟨rfl, rfl, rfl, rfl, rfl, rfl⟩, hat.shows.1, fun h => absurd (hrow.symm.trans h) Bool.false_ne_true,
        fun h => absurd (hrow.symm.trans h) Bool.false_ne_true, fun _ => ⟨herr, rfl, p, rfl, ?_,
          hat.shows⟩⟩
      refine ⟨hw, ha0, hrow'.start, hrow'.white, hrow'.ahead, fun _ => ?_, hrow'.above⟩
      rw [hrow'.start hstart]
      exact Nat.zero_le w

theorem unusual2d_ends (code : Code) (hfmt : s.g.inputFormat ≠ .mmr)
    (hprior : s.g.bytesInRow ≤ s.g.priorP.length) (hat : At2d w ref p s) :
    Ends2d w ref p [] s.g (unusual2d s.g s.out code) := by
  have hrow := hat.row
  cases code with
  | gotCode v => exact ⟨.refl, hat.shows.1, (nomatch ·), (nomatch ·), fun _ => ⟨rfl, rfl, p, rfl, hrow, hat.shows⟩⟩
  | needMore => exact ⟨.refl, hat.shows.1, (nomatch ·), (nomatch ·), fun _ => ⟨rfl, rfl, p, rfl, hrow, hat.shows⟩⟩
  | badCode =>
    exact ⟨⟨rfl, rfl, rfl, rfl, rfl, rfl⟩, repeatRow_room hprior hat.shows.1, fun _ => (nomatch ·),
      fun _ _ => ⟨take_repeatRow hprior, rfl⟩, (nomatch ·)⟩
  | fill => exact atEol2d_ends hfmt hprior hat rfl rfl
  | hitEol => exact atEol2d_ends hfmt hprior hat rfl rfl

theorem nextTable_of_ne (hfmt : g.inputFormat ≠ .mmr) : ∃ tbl, nextTable g = .inr tbl := by
  rw [nextTable]
  cases g.state2d with
  | normal2d => exact ⟨_, if_neg fun h => hfmt h.2⟩
  | horiz1st => exact ⟨_, rfl⟩
  | horiz2nd => exact ⟨_, rfl⟩

theorem InRange.append {more : List Item} (h : InRange ref w p (items ++ more))
    (hp : p.drawAll ref w items = some p') : InRange ref w p' more := by
  intro k q hq
  refine h (items.length + k) q ?_
  rw [List.take_length_add_append, Pen.drawAll_append, hp]
  exact hq

theorem InRange.last {more : List Item} (h : InRange ref w p (items ++ more))
    (hp : p.drawAll ref w items = some p') : p'.pos < 2 ^ 31 := by
  refine h items.length p' ?_
  rw [List.take_left' rfl]
  exact hp

theorem Ends2d.after {more : List Item} {r : Ret × DecInst × List UInt8}
    (hdraw : p.drawAll ref w items = some p') (h : Ends2d w ref p' more g r) :
    Ends2d w ref p (items ++ more) g r := by
  have hall : p.drawAll ref w (items ++ more) = p'.drawAll ref w more := by
    rw [Pen.drawAll_append, hdraw]
    rfl
  refine ⟨h.same, h.room, ?_, h.copied, ?_⟩
  · rw [hall]
    exact h.good
  · rw [hall]
    exact h.going

/-- **The decoder of a two-dimensional row draws what it reads.** -/
theorem decodeModes_draws (rounds : Nat) {r : Ret × DecInst × List UInt8} (hw : w < 2 ^ 31)
    (hfmt : s.g.inputFormat ≠ .mmr) (hprior : s.g.bytesInRow ≤ s.g.priorP.length)
    (hat : At2d w ref p s) (hrange : InRange ref w p (modesRead rounds s))
    (h : decodeModes rounds s = .ok r) : Ends2d w ref p (modesRead rounds s) s.g r := by
  induction rounds generalizing s p with
  | zero => cases h
  | succ rounds ih =>
    obtain ⟨tbl, htbl⟩ := nextTable_of_ne hfmt
    rw [decodeModes, htbl] at h
    rw [modesRead, htbl] at hrange ⊢
    dsimp only at h hrange ⊢
    obtain ⟨⟨code, gb⟩, hparse, h⟩ := bind_eq_ok.mp h
    rw [hparse] at hrange ⊢
    obtain ⟨s₁, hs₁⟩ : ∃ s₁ : Decoding, s₁ = { s with g := { s.g with gb := gb } } := ⟨_, rfl⟩
    have hrow := hat.row
    have hat₁ : At2d w ref p s₁ := by
      rw [hs₁]
      exact ⟨⟨hrow.rowLen, hrow.a0, hrow.start, hrow.white, hrow.ahead, hrow.inside, hrow.above⟩,
        hat.shows, hat.b1⟩
    have hsame : ∀ {p items}, Ends2d w ref p items s₁.g r → Ends2d w ref p items s.g r := by
      intro p items hends
      rw [hs₁] at hends
      exact ⟨⟨hends.same.priorP, hends.same.rowLen, hends.same.bytesInRow, hends.same.inputFormat,
        hends.same.twoDim, hends.same.length⟩, hends.room, hends.good, hends.copied, hends.going⟩
    have hfmt₁ : s₁.g.inputFormat ≠ .mmr := by rw [hs₁]; exact hfmt
    have hprior₁ : s₁.g.bytesInRow ≤ s₁.g.priorP.length := by rw [hs₁]; exact hprior
    have hstate₁ : s₁.g.state2d = s.g.state2d := by rw [hs₁]
    dsimp only at h hrange ⊢
    rw [← hs₁] at h
    cases code with
    | gotCode value =>
      dsimp only at h hrange ⊢
      rw [← hs₁] at hrange ⊢
      rw [← hstate₁] at hrange ⊢
      obtain ⟨⟨good, s'⟩, hcode, h⟩ := bind_eq_ok.mp h
      rw [hcode] at hrange ⊢
      obtain ⟨hbut, hroom, hgood⟩ := decodeCode2d_at hat₁ hw (fun p' hp' => hrange.last hp') hcode
      cases good with
      | true =>
        obtain ⟨p', hdraw, hat'⟩ := hgood rfl
        obtain ⟨a, white, state, hg'⟩ := hbut
        dsimp only at h hrange ⊢
        rw [if_pos rfl] at h
        have hends := ih (by rw [hg']; exact hfmt₁) (by rw [hg']; exact hprior₁) hat'
          (hrange.append hdraw) h
        rw [hg'] at hends
        exact hsame (Ends2d.after hdraw ⟨⟨hends.same.priorP, hends.same.rowLen,
          hends.same.bytesInRow, hends.same.inputFormat, hends.same.twoDim, hends.same.length⟩, hends.room, hends.good,
          hends.copied, hends.going⟩)
      | false =>
        dsimp only at h hrange ⊢
        rw [if_neg Bool.false_ne_true] at h
        cases h
        obtain ⟨a, white, state, hg'⟩ := hbut
        have hprior' : s'.g.bytesInRow ≤ s'.g.priorP.length := by rw [hg']; exact hprior₁
        have hcopy : (repeatRow s'.g s'.out).take s'.g.bytesInRow
            = s'.g.priorP.take s'.g.bytesInRow := take_repeatRow hprior'
        rw [hg'] at hcopy
        refine hsame ⟨?_, repeatRow_room hprior' hroom, fun _ => (by rintro ⟨⟩),
          fun _ _ => ⟨?_, rfl⟩, (by rintro ⟨⟩)⟩
        · rw [unusual2d, hg']
          exact ⟨rfl, rfl, rfl, rfl, rfl, rfl⟩
        · rw [unusual2d, hg']
          exact hcopy
    | needMore =>
      cases h
      show Ends2d w ref p [] s.g _
      refine hsame ?_
      have hends := unusual2d_ends .needMore hfmt₁ hprior₁ hat₁
      rw [hs₁] at hends ⊢
      exact hends
    | badCode =>
      cases h
      show Ends2d w ref p [] s.g _
      refine hsame ?_
      have hends := unusual2d_ends .badCode hfmt₁ hprior₁ hat₁
      rw [hs₁] at hends ⊢
      exact hends
    | fill =>
      cases h
      show Ends2d w ref p [] s.g _
      refine hsame ?_
      have hends := unusual2d_ends .fill hfmt₁ hprior₁ hat₁
      rw [hs₁] at hends ⊢
      exact hends
    | hitEol =>
      cases h
      show Ends2d w ref p [] s.g _
      refine hsame ?_
      have hends := unusual2d_ends .hitEol hfmt₁ hprior₁ hat₁
      rw [hs₁] at hends ⊢
      exact hends

end Hplip.Ip
