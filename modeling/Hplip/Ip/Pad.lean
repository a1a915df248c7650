import Hplip.Ip.Crop

/-!
# Padding an image (`xpad.c`)

The transform adds pixels at both sides of a row and rows above and below. A bilevel row is
placed at a byte boundary: the left edge moves to the nearest multiple of 8. A negative left
amount asks for a width that is a multiple of it.
-/

namespace Hplip.Ip.Pad

open CInt Checked PackedRow
open Crop (Stop rowBytes shiftLeft rowBytes_toDword shiftLeft_ok)

/-! ## The transform -/

/-- `PAD_INST`, less its check value. -/
structure Inst where
  traits : IpImageTraits
  dwLeft : UInt32
  dwRight : UInt32
  dwTop : UInt32
  dwBottom : UInt32
  dwMinInRows : UInt32
  dwInBytesPerRow : UInt32
  dwOutBytesPerRow : UInt32
  dwLeftPadBytes : UInt32
  dwRightPadBytes : UInt32
  bPadVal : UInt8
  dwInRows : UInt32
  dwOutRows : UInt32
  dwInNextPos : UInt32
  dwOutNextPos : UInt32
  deriving DecidableEq

/-- `aXformInfo`. -/
structure XformSpec where
  left : UInt32
  right : UInt32
  top : UInt32
  bottom : UInt32
  value : UInt32
  minHeight : UInt32

def openXform : Inst := ⟨⟨0, 0, 0, 0, 0, 0, 0, 0⟩, 0, 0, 0, 0, 0, 0, 0, 0, 0, 0, 0, 0, 0, 0⟩

def setDefaultInputTraits (g : Inst) (traits : IpImageTraits) : Except Stop Inst := do
  require (0 < traits.iPixelsPerRow ∧ 0 < traits.iBitsPerPixel) .fatalError
  return { g with traits := traits }

def setXformSpec (g : Inst) (spec : XformSpec) : Inst :=
  { g with
    dwLeft := spec.left
    dwRight := spec.right
    dwTop := spec.top
    dwBottom := spec.bottom
    bPadVal := spec.value.toUInt8
    dwMinInRows := spec.minHeight }

/-- Pad `n` to a multiple of `unit`: the amounts before and after. -/
def roundUp (n unit : Int) : Except Stop (Int × Int) := do
  let sum ← int .overflow (n + unit)
  let sum ← int .overflow (sum - 1)
  let rounded ← int .overflow (sum.tdiv unit * unit)
  let more ← int .overflow (rounded - n)
  let before := more / 2
  let after ← int .overflow (more - before)
  return (before, after)

/-- `left` and `right`; a negative `left` is worked out and kept in the instance. -/
def sides (g : Inst) : Except Stop (Int × Int × Inst) := do
  let left := ofDword g.dwLeft
  if left < 0 then do
    let unit ← int .overflow (-left)
    let (left, right) ← roundUp g.traits.iPixelsPerRow unit
    return (left, right, { g with dwLeft := toDword left, dwRight := toDword right })
  else return (left, ofDword g.dwRight, g)

def ends (g : Inst) : Except Stop Inst := do
  let top := ofDword g.dwTop
  if top < 0 then do
    let unit ← int .overflow (-top)
    let (top, bot) ← roundUp (ofDword (toDword g.traits.lNumRows)) unit
    return { g with dwTop := toDword top, dwBottom := toDword bot }
  else return g

/-- `pOutTraits->lNumRows`, with the amounts above and below. -/
def heights (g : Inst) : Except Stop (Int × Inst) :=
  if 0 < g.traits.lNumRows then do
    let g ← ends g
    return (g.traits.lNumRows + g.dwTop.toNat + g.dwBottom.toNat, g)
  else return (g.traits.lNumRows, g)

def padByte (bpp : Int) (value : UInt8) : UInt8 :=
  if bpp = 1 then (if value &&& 1 ≠ 0 then 0xff else 0) else value

/-- What `getActualTraits` answers. -/
structure Parsed where
  result : UInt16
  inTraits : IpImageTraits
  outTraits : IpImageTraits
  inst : Inst

def getActualTraits (g : Inst) : Except Stop Parsed := do
  let bpp := g.traits.iBitsPerPixel
  let inWidth := g.traits.iPixelsPerRow
  let (left, right, g) ← sides g
  let sum ← int .overflow (inWidth + left)
  let outWidth ← int .overflow (sum + right)
  let left ← shiftLeft bpp left right
  let inBytes ← rowBytes bpp inWidth
  let outBytes ← rowBytes bpp outWidth
  let leftBytes ← rowBytes bpp left
  let (lNumRows, g) ← heights { g with
    bPadVal := padByte bpp g.bPadVal
    dwInBytesPerRow := toDword inBytes
    dwOutBytesPerRow := toDword outBytes
    dwLeftPadBytes := toDword leftBytes
    dwRightPadBytes := toDword outBytes - toDword inBytes - toDword leftBytes }
  require (0 ≤ ofDword g.dwLeft) .fatalError
  require (0 ≤ ofDword g.dwTop) .fatalError
  return {
    result := if 0 < g.dwTop then ipDone else ipDone ||| ipReadyForData
    inTraits := g.traits
    outTraits := { g.traits with iPixelsPerRow := outWidth, lNumRows := lNumRows }
    inst := g }

/-- What `convert` answers; `inUsed` is set for a row of the input only. -/
structure Converted where
  result : UInt16
  inUsed : Option UInt32
  inNextPos : UInt32
  outUsed : UInt32
  outThisPos : UInt32
  outBuf : List UInt8
  deriving DecidableEq

/-- The bytes of the output row; without a row of the input it is white. -/
def rowOut (g : Inst) : Option (List UInt8) → List UInt8
  | none => List.replicate g.dwOutBytesPerRow.toNat g.bPadVal
  | some buf => List.replicate g.dwLeftPadBytes.toNat g.bPadVal ++
      buf.take g.dwInBytesPerRow.toNat ++ List.replicate g.dwRightPadBytes.toNat g.bPadVal

/-- `Output a Row`. -/
def outputRow (g : Inst) (row : Option (List UInt8)) (dwOutputAvail : UInt32) :
    Except Stop (Converted × Inst) := do
  require (∀ buf ∈ row, g.dwInBytesPerRow.toNat ≤ buf.length) .fatalError
  require (g.dwOutBytesPerRow ≤ dwOutputAvail) .fatalError
  require ((rowOut g row).length ≤ dwOutputAvail.toNat) .outside
  let next := match row with
    | none => { g with dwOutRows := g.dwOutRows + 1 }
    | some _ => { g with
        dwInRows := g.dwInRows + 1
        dwInNextPos := g.dwInNextPos + g.dwInBytesPerRow
        dwOutRows := g.dwOutRows + 1 }
  return (⟨(if row.isNone then 0 else ipConsumedRow) ||| ipProducedRow |||
      (if next.dwOutRows < next.dwTop then 0 else ipReadyForData),
    row.map fun _ => g.dwInBytesPerRow, next.dwInNextPos,
    g.dwOutBytesPerRow, g.dwOutNextPos, rowOut g row⟩,
    { next with dwOutNextPos := g.dwOutNextPos + g.dwOutBytesPerRow })

def convert (g : Inst) (inputBuf : Option (List UInt8)) (dwOutputAvail : UInt32) :
    Except Stop (Converted × Inst) :=
  match inputBuf with
  | none =>
    if g.dwInRows < g.dwMinInRows then
      outputRow { g with dwInRows := g.dwInRows + 1 } none dwOutputAvail
    else if 0 < g.dwBottom then
      outputRow { g with dwBottom := g.dwBottom - 1 } none dwOutputAvail
    else return (⟨ipDone, some 0, g.dwInNextPos, 0, g.dwOutNextPos, []⟩, g)
  | some buf => outputRow g (if g.dwOutRows < g.dwTop then none else some buf) dwOutputAvail

def start (traits : IpImageTraits) (spec : XformSpec) : Except Stop Inst := do
  let g ← setDefaultInputTraits openXform traits
  let parsed ← getActualTraits (setXformSpec g spec)
  return parsed.inst

inductive Reached (g : Inst) : Inst → Prop
  | start : Reached g g
  | call {g₁ g₂ : Inst} {inputBuf : Option (List UInt8)} {avail : UInt32} {c : Converted} :
    Reached g g₁ → convert g₁ inputBuf avail = .ok (c, g₂) → Reached g g₂

/-! ## What padding means -/

def margins (traits : IpImageTraits) (spec : XformSpec) : Int × Int :=
  let left := ofDword spec.left
  if left < 0 then
    let more := (traits.iPixelsPerRow - left - 1) / -left * -left - traits.iPixelsPerRow
    (more / 2, more - more / 2)
  else (left, ofDword spec.right)

/-- Where the row of the input begins: for bilevel rows at the nearest multiple of 8. -/
def leftEdge (traits : IpImageTraits) (spec : XformSpec) : Int :=
  if traits.iBitsPerPixel = 1 then ((margins traits spec).1 + 4) / 8 * 8
  else (margins traits spec).1

def outWidth (traits : IpImageTraits) (spec : XformSpec) : Int :=
  traits.iPixelsPerRow + (margins traits spec).1 + (margins traits spec).2

def padPixel (bpp : Nat) (value : UInt8) (x : Nat) : List Bool :=
  pixel bpp (List.replicate (bpp * (x + 1)) value) x

/-- The byte counts add up, and every call that reports a row writes exactly the bytes of a row:
for a row of the input its pixels between pad pixels. -/
structure PadsRows (traits : IpImageTraits) (spec : XformSpec) (g : Inst) : Prop where
  adds : g.dwLeftPadBytes.toNat + g.dwInBytesPerRow.toNat + g.dwRightPadBytes.toNat
    = g.dwOutBytesPerRow.toNat
  rows : ∀ (g₁ : Inst) (inputBuf : Option (List UInt8)) (avail : UInt32), Reached g g₁ →
    (∀ buf ∈ inputBuf, g.dwInBytesPerRow.toNat ≤ buf.length) → g.dwOutBytesPerRow ≤ avail →
      ∃ c g₂, convert g₁ inputBuf avail = .ok (c, g₂) ∧
        (Has c.result ipProducedRow →
          c.outBuf.length = bytesFor (traits.iBitsPerPixel * outWidth traits spec).toNat) ∧
        ∀ buf, inputBuf = some buf → Has c.result ipConsumedRow →
          ∀ x : Nat, (x : Int) < outWidth traits spec →
            pixel traits.iBitsPerPixel.toNat c.outBuf x =
              if leftEdge traits spec ≤ x ∧ x < leftEdge traits spec + traits.iPixelsPerRow then
                pixel traits.iBitsPerPixel.toNat buf (x - leftEdge traits spec).toNat
              else padPixel traits.iBitsPerPixel.toNat
                (padByte traits.iBitsPerPixel spec.value.toUInt8) x

/-! ## The instance that converts -/

theorem roundUp_ok {n unit : Int} {r : Int × Int} (h : roundUp n unit = .ok r) :
    r = (((n + unit - 1).tdiv unit * unit - n) / 2,
      (n + unit - 1).tdiv unit * unit - n - ((n + unit - 1).tdiv unit * unit - n) / 2) := by
  obtain ⟨_, hsum, h₁⟩ := steps_of_ok h
  obtain ⟨_, hless, h₂⟩ := steps_of_ok h₁
  obtain ⟨_, hrounded, h₃⟩ := steps_of_ok h₂
  obtain ⟨_, hmore, h₄⟩ := steps_of_ok h₃
  obtain ⟨_, hafter, h₅⟩ := steps_of_ok h₄
  rw [← Except.ok.inj h₅, (int_eq_ok.mp hafter).2, (int_eq_ok.mp hmore).2,
    (int_eq_ok.mp hrounded).2, (int_eq_ok.mp hless).2, (int_eq_ok.mp hsum).2]

theorem sides_ok {traits : IpImageTraits} {spec : XformSpec} {g g' : Inst} {left right : Int}
    (hleft : g.dwLeft = spec.left) (hright : g.dwRight = spec.right) (htraits : g.traits = traits)
    (hwidth : 0 < traits.iPixelsPerRow) (h : sides g = .ok (left, right, g')) :
    (left, right) = margins traits spec ∧
      ∃ a b, g' = { g with dwLeft := a, dwRight := b } := by
  subst htraits
  rw [sides, hleft, hright] at h
  rw [margins]
  by_cases hneg : ofDword spec.left < 0
  · simp only [if_pos hneg] at h ⊢
    obtain ⟨unit, hunit, h₁⟩ := steps_of_ok h
    obtain ⟨r, hr, h₂⟩ := steps_of_ok h₁
    have hunit := (int_eq_ok.mp hunit).2
    have hround := roundUp_ok hr
    have hdiv : (g.traits.iPixelsPerRow + unit - 1).tdiv unit
        = (g.traits.iPixelsPerRow - ofDword spec.left - 1) / -ofDword spec.left := by
      rw [Int.tdiv_eq_ediv_of_nonneg (by lia), hunit]
      rfl
    obtain ⟨hl, hrest⟩ := Prod.mk.inj (Except.ok.inj h₂)
    obtain ⟨hr', hg'⟩ := Prod.mk.inj hrest
    rw [hdiv, hunit] at hround
    refine ⟨?_, _, _, hg'.symm⟩
    rw [← hl, ← hr', hround]
  · simp only [if_neg hneg] at h ⊢
    obtain ⟨hl, hrest⟩ := Prod.mk.inj (Except.ok.inj h)
    obtain ⟨hr', hg'⟩ := Prod.mk.inj hrest
    refine ⟨by rw [← hl, ← hr'], g.dwLeft, g.dwRight, hg'.symm⟩

theorem heights_ok {g : Inst} {r : Int × Inst} (h : heights g = .ok r) :
    ∃ top bottom, r.2 = { g with dwTop := top, dwBottom := bottom } := by
  unfold heights at h
  split at h
  · obtain ⟨g₁, hg₁, h₁⟩ := steps_of_ok h
    obtain rfl := Except.ok.inj h₁
    unfold ends at hg₁
    dsimp only at hg₁
    split at hg₁
    · obtain ⟨unit, hunit, h₂⟩ := steps_of_ok hg₁
      obtain ⟨pads, hpads, h₃⟩ := steps_of_ok h₂
      exact ⟨_, _, (Except.ok.inj h₃).symm⟩
    · exact ⟨g.dwTop, g.dwBottom, (Except.ok.inj hg₁).symm⟩
  · obtain rfl := Except.ok.inj h
    exact ⟨g.dwTop, g.dwBottom, rfl⟩

theorem margins_nonneg {traits : IpImageTraits} {spec : XformSpec}
    (hright : 0 ≤ ofDword spec.left → 0 ≤ ofDword spec.right) :
    0 ≤ (margins traits spec).1 ∧ 0 ≤ (margins traits spec).2 := by
  rw [margins]
  by_cases hneg : ofDword spec.left < 0
  · simp only [if_pos hneg]
    have hunit : 0 < -ofDword spec.left := by lia
    have hmod := Int.emod_lt_of_pos (traits.iPixelsPerRow - ofDword spec.left - 1) hunit
    have hsum := Int.ediv_mul_add_emod (traits.iPixelsPerRow - ofDword spec.left - 1)
      (-ofDword spec.left)
    constructor
    · lia
    · lia
  · simp only [if_neg hneg]
    exact ⟨by lia, hright (by lia)⟩

structure Started (traits : IpImageTraits) (spec : XformSpec) (g : Inst) : Prop where
  bpp : 0 < traits.iBitsPerPixel
  width : 0 < traits.iPixelsPerRow
  left : 0 ≤ (margins traits spec).1
  right : 0 ≤ (margins traits spec).2
  inBytes : g.dwInBytesPerRow.toNat
    = bytesFor (traits.iBitsPerPixel * traits.iPixelsPerRow).toNat
  outBytes : g.dwOutBytesPerRow.toNat
    = bytesFor (traits.iBitsPerPixel * outWidth traits spec).toNat
  leftBytes : g.dwLeftPadBytes.toNat
    = bytesFor (traits.iBitsPerPixel * leftEdge traits spec).toNat
  rightBytes : g.dwRightPadBytes
    = g.dwOutBytesPerRow - g.dwInBytesPerRow - g.dwLeftPadBytes
  value : g.bPadVal = padByte traits.iBitsPerPixel spec.value.toUInt8
  outRows : g.dwOutRows = 0

theorem started_of_start {traits : IpImageTraits} {spec : XformSpec} {g : Inst}
    (hright : 0 ≤ ofDword spec.left → 0 ≤ ofDword spec.right)
    (h : start traits spec = .ok g) : Started traits spec g := by
  obtain ⟨g₁, hdefault, h₁⟩ := steps_of_ok h
  obtain ⟨parsed, hparse, h₂⟩ := steps_of_ok h₁
  obtain ⟨_, hknown, h₃⟩ := steps_of_ok hdefault
  obtain ⟨hwidth, hbpp⟩ := require_eq_ok.mp hknown
  have hg : parsed.inst = g := Except.ok.inj h₂
  have hg₁ : { openXform with traits := traits } = g₁ := Except.ok.inj h₃
  subst hg hg₁
  -- the operations of `getActualTraits`, one after the other
  obtain ⟨⟨left, right, g₂⟩, hsides, h₄⟩ := steps_of_ok hparse
  obtain ⟨sum, hsum, h₅⟩ := steps_of_ok h₄
  obtain ⟨out, hout, h₆⟩ := steps_of_ok h₅
  obtain ⟨edge, hedge, h₇⟩ := steps_of_ok h₆
  obtain ⟨inBytes, hin, h₈⟩ := steps_of_ok h₇
  obtain ⟨outBytes, hbytes, h₉⟩ := steps_of_ok h₈
  obtain ⟨leftBytes, hpad, h₁₀⟩ := steps_of_ok h₉
  obtain ⟨tall, htall, h₁₁⟩ := steps_of_ok h₁₀
  obtain ⟨_, _, h₁₂⟩ := steps_of_ok h₁₁
  obtain ⟨_, _, h₁₃⟩ := steps_of_ok h₁₂
  obtain ⟨hmargins, a, b, rfl⟩ := sides_ok rfl rfl rfl hwidth hsides
  obtain ⟨top, bottom, htop⟩ := heights_ok htall
  have hpos : 0 ≤ (margins traits spec).1 ∧ 0 ≤ (margins traits spec).2 := margins_nonneg hright
  obtain ⟨hl, hr⟩ := Prod.mk.inj (hmargins.trans rfl : (left, right)
    = ((margins traits spec).1, (margins traits spec).2))
  have hsum := (int_eq_ok.mp hsum).2
  have hout := (int_eq_ok.mp hout).2
  have hwide : out = outWidth traits spec := by
    rw [hout, hsum, hl, hr]
    rfl
  have hedge : edge = leftEdge traits spec := by
    rw [shiftLeft_ok hedge, hl]
    rfl
  subst hwide hedge
  have hinst : parsed.inst = tall.2 := by rw [← Except.ok.inj h₁₃]
  have houtpos : 0 ≤ outWidth traits spec := by
    rw [outWidth]
    lia
  have hedgepos : 0 ≤ leftEdge traits spec := by
    rw [leftEdge]
    split
    · lia
    · exact hpos.1
  rw [hinst, htop]
  exact {
    bpp := hbpp
    width := hwidth
    left := hpos.1
    right := hpos.2
    inBytes := rowBytes_toDword hin (Int.mul_nonneg hbpp.le hwidth.le)
    outBytes := rowBytes_toDword hbytes (Int.mul_nonneg hbpp.le houtpos)
    leftBytes := rowBytes_toDword hpad (Int.mul_nonneg hbpp.le hedgepos)
    rightBytes := rfl
    value := rfl
    outRows := rfl }

/-! ## Calls -/

structure SameLayout (g g₁ : Inst) : Prop where
  inBytes : g₁.dwInBytesPerRow = g.dwInBytesPerRow
  outBytes : g₁.dwOutBytesPerRow = g.dwOutBytesPerRow
  leftBytes : g₁.dwLeftPadBytes = g.dwLeftPadBytes
  rightBytes : g₁.dwRightPadBytes = g.dwRightPadBytes
  value : g₁.bPadVal = g.bPadVal
  top : g₁.dwTop = g.dwTop

theorem SameLayout.refl (g : Inst) : SameLayout g g := ⟨rfl, rfl, rfl, rfl, rfl, rfl⟩

theorem SameLayout.trans {g₁ g₂ g₃ : Inst} (h : SameLayout g₁ g₂) (h' : SameLayout g₂ g₃) :
    SameLayout g₁ g₃ :=
  ⟨h'.inBytes.trans h.inBytes, h'.outBytes.trans h.outBytes, h'.leftBytes.trans h.leftBytes,
    h'.rightBytes.trans h.rightBytes, h'.value.trans h.value, h'.top.trans h.top⟩

theorem SameLayout.rowOut {g g₁ : Inst} (h : SameLayout g g₁) (row : Option (List UInt8)) :
    rowOut g₁ row = rowOut g row := by
  cases row with
  | none => rw [Pad.rowOut, Pad.rowOut, h.outBytes, h.value]
  | some buf =>
    rw [Pad.rowOut, Pad.rowOut, h.inBytes, h.leftBytes, h.rightBytes, h.value]

theorem row_marked (more : Bool) :
    Has (ipConsumedRow ||| ipProducedRow ||| (if more then 0 else ipReadyForData)) ipConsumedRow :=
  by cases more <;> decide

theorem white_marked (more : Bool) :
    ¬ Has (0 ||| ipProducedRow ||| (if more then 0 else ipReadyForData)) ipConsumedRow := by
  cases more <;> decide

structure Outputs (g : Inst) (row : Option (List UInt8)) (c : Converted) (g₁ : Inst) : Prop where
  bytes : c.outBuf = rowOut g row
  consumed : Has c.result ipConsumedRow ↔ row.isSome
  layout : SameLayout g g₁
  counted : g₁.dwOutRows = g.dwOutRows + 1

theorem outputRow_ok {g g₁ : Inst} {row : Option (List UInt8)} {avail : UInt32} {c : Converted}
    (h : outputRow g row avail = .ok (c, g₁)) : Outputs g row c g₁ := by
  obtain ⟨_, _, h₁⟩ := steps_of_ok h
  obtain ⟨_, _, h₂⟩ := steps_of_ok h₁
  obtain ⟨_, _, h₃⟩ := steps_of_ok h₂
  obtain ⟨rfl, rfl⟩ := Prod.mk.inj (Except.ok.inj h₃)
  cases row with
  | none =>
    refine ⟨rfl, iff_of_false ?_ (by decide), ⟨rfl, rfl, rfl, rfl, rfl, rfl⟩, rfl⟩
    have hwhite := white_marked (decide (g.dwOutRows + 1 < g.dwTop))
    simpa using hwhite
  | some buf =>
    refine ⟨rfl, iff_of_true ?_ rfl, ⟨rfl, rfl, rfl, rfl, rfl, rfl⟩, rfl⟩
    have hrow := row_marked (decide (g.dwOutRows + 1 < g.dwTop))
    simpa using hrow

theorem outputRow_returns {g : Inst} (row : Option (List UInt8)) {avail : UInt32}
    (hrow : ∀ buf ∈ row, g.dwInBytesPerRow.toNat ≤ buf.length)
    (hlen : (rowOut g row).length = g.dwOutBytesPerRow.toNat)
    (havail : g.dwOutBytesPerRow ≤ avail) :
    ∃ c g₁, outputRow g row avail = .ok (c, g₁) := by
  have hroom : (rowOut g row).length ≤ avail.toNat := by
    rw [hlen]
    exact UInt32.le_iff_toNat_le.mp havail
  unfold outputRow
  rw [require_pos hrow, require_pos havail, require_pos hroom]
  cases row with
  | none => exact ⟨_, _, rfl⟩
  | some buf => exact ⟨_, _, rfl⟩

theorem convert_layout {g g₁ : Inst} {inputBuf : Option (List UInt8)} {avail : UInt32}
    {c : Converted} (h : convert g inputBuf avail = .ok (c, g₁)) : SameLayout g g₁ := by
  cases inputBuf with
  | none =>
    unfold convert at h
    dsimp only at h
    split at h
    · obtain ⟨hin, hout, hleft, hright, hvalue, htop⟩ := (outputRow_ok h).layout
      exact ⟨hin, hout, hleft, hright, hvalue, htop⟩
    · split at h
      · obtain ⟨hin, hout, hleft, hright, hvalue, htop⟩ := (outputRow_ok h).layout
        exact ⟨hin, hout, hleft, hright, hvalue, htop⟩
      · obtain ⟨-, rfl⟩ := Prod.mk.inj (Except.ok.inj h)
        exact SameLayout.refl g
  | some buf => exact (outputRow_ok h).layout

theorem Reached.layout {g g₁ : Inst} (h : Reached g g₁) : SameLayout g g₁ := by
  induction h with
  | start => exact SameLayout.refl g
  | call _ hcall ih => exact ih.trans (convert_layout hcall)

theorem length_white (g : Inst) : (rowOut g none).length = g.dwOutBytesPerRow.toNat :=
  List.length_replicate

theorem reached_rows {g : Inst} (hstart : g.dwOutRows = 0) :
    ∃ g₁, Reached g g₁ ∧ ¬ g₁.dwOutRows < g₁.dwTop := by
  have hsteps : ∀ k ≤ g.dwTop.toNat, ∃ g₁, Reached g g₁ ∧ g₁.dwOutRows.toNat = k := by
    intro k
    induction k with
    | zero =>
      intro _
      exact ⟨g, .start, by rw [hstart]; rfl⟩
    | succ k ih =>
      intro hk
      obtain ⟨g₁, hreached, hcount⟩ := ih (by lia)
      have hwhite : g₁.dwOutRows < g₁.dwTop := by
        rw [UInt32.lt_iff_toNat_lt, hreached.layout.top, hcount]
        lia
      obtain ⟨c, g₂, hcall⟩ := outputRow_returns (g := g₁) none nofun (length_white g₁)
        (UInt32.le_refl _)
      have hconvert : convert g₁ (some []) g₁.dwOutBytesPerRow = .ok (c, g₂) := by
        rw [convert, if_pos hwhite, hcall]
      refine ⟨g₂, .call hreached hconvert, ?_⟩
      have hfits := g.dwTop.toNat_lt
      rw [(outputRow_ok hcall).counted, UInt32.toNat_add, hcount, UInt32.toNat_one,
        Nat.mod_eq_of_lt (by lia)]
  obtain ⟨g₁, hreached, hcount⟩ := hsteps _ (Nat.le_refl _)
  refine ⟨g₁, hreached, ?_⟩
  rw [UInt32.lt_iff_toNat_lt, hreached.layout.top, hcount]
  exact Nat.lt_irrefl _

/-! ## The bits of a padded row -/

section PaddedRow

variable {g : Inst} {buf : List UInt8}

theorem length_padded (hbuf : g.dwInBytesPerRow.toNat ≤ buf.length) :
    (rowOut g (some buf)).length
      = g.dwLeftPadBytes.toNat + g.dwInBytesPerRow.toNat + g.dwRightPadBytes.toNat := by
  rw [rowOut, List.length_append, List.length_append, List.length_replicate,
    List.length_replicate, List.length_take_of_le hbuf]

theorem bit_left {p : Nat} (hp : p < 8 * g.dwLeftPadBytes.toNat) :
    bit (rowOut g (some buf)) p = (Bits.byteBits g.bPadVal)[p % 8]? := by
  rw [rowOut, List.append_assoc, bit_append_left (by rwa [List.length_replicate]),
    bit_replicate _ hp]

theorem bit_inside (hbuf : g.dwInBytesPerRow.toNat ≤ buf.length) {p : Nat}
    (hp : p < 8 * g.dwInBytesPerRow.toNat) :
    bit (rowOut g (some buf)) (8 * g.dwLeftPadBytes.toNat + p) = bit buf p := by
  have hlen : (buf.take g.dwInBytesPerRow.toNat).length = g.dwInBytesPerRow.toNat :=
    List.length_take_of_le hbuf
  rw [rowOut, List.append_assoc, bit_append_right (by rw [List.length_replicate]; omega),
    List.length_replicate, Nat.add_sub_cancel_left, bit_append_left (by rwa [hlen]), bit_take hp]

theorem bit_right (hbuf : g.dwInBytesPerRow.toNat ≤ buf.length) {p : Nat}
    (hlow : 8 * (g.dwLeftPadBytes.toNat + g.dwInBytesPerRow.toNat) ≤ p)
    (hhigh : p < 8 * (g.dwLeftPadBytes.toNat + g.dwInBytesPerRow.toNat + g.dwRightPadBytes.toNat)) :
    bit (rowOut g (some buf)) p = (Bits.byteBits g.bPadVal)[p % 8]? := by
  have hlen : (List.replicate g.dwLeftPadBytes.toNat g.bPadVal ++
      buf.take g.dwInBytesPerRow.toNat).length
        = g.dwLeftPadBytes.toNat + g.dwInBytesPerRow.toNat := by
    rw [List.length_append, List.length_replicate, List.length_take_of_le hbuf]
  rw [rowOut, bit_append_right (by rwa [hlen]), hlen, bit_replicate _ (by lia)]
  congr 1
  lia

theorem bit_padPixel {bpp x j : Nat} {value : UInt8} (hj : j < bpp) :
    bit (List.replicate (bpp * (x + 1)) value) (bpp * x + j)
      = (Bits.byteBits value)[(bpp * x + j) % 8]? := by
  refine bit_replicate value ?_
  rw [Nat.mul_add]
  lia

end PaddedRow

/-! ## When a row is padded as it should be -/

/-- The row's bytes have room behind the left edge, the left edge stands on a byte, and the
row's last byte is full unless the right margin is empty. -/
def RowFits (traits : IpImageTraits) (spec : XformSpec) : Prop :=
  bytesFor (traits.iBitsPerPixel * leftEdge traits spec).toNat
      + bytesFor (traits.iBitsPerPixel * traits.iPixelsPerRow).toNat
    ≤ bytesFor (traits.iBitsPerPixel * outWidth traits spec).toNat ∧
  (8 : Int) ∣ traits.iBitsPerPixel * leftEdge traits spec ∧
  ((8 : Int) ∣ traits.iBitsPerPixel * traits.iPixelsPerRow ∨
    outWidth traits spec ≤ leftEdge traits spec + traits.iPixelsPerRow)

/-- The same amounts as numbers: a row of `width` pixels at `left` in one of `total`. -/
structure Layout (traits : IpImageTraits) (spec : XformSpec) (g : Inst)
    (bpp width left total : Nat) : Prop where
  bppEq : traits.iBitsPerPixel = bpp
  widthEq : traits.iPixelsPerRow = width
  leftEq : leftEdge traits spec = left
  totalEq : outWidth traits spec = total
  bppPos : 0 < bpp
  widthPos : 0 < width
  inBytes : g.dwInBytesPerRow.toNat = bytesFor (bpp * width)
  outBytes : g.dwOutBytesPerRow.toNat = bytesFor (bpp * total)
  leftBytes : g.dwLeftPadBytes.toNat = bytesFor (bpp * left)
  value : g.bPadVal = padByte traits.iBitsPerPixel spec.value.toUInt8

section Rows

variable {traits : IpImageTraits} {spec : XformSpec} {g : Inst} {bpp width left total : Nat}

theorem Started.exists_layout (hs : Started traits spec g) :
    ∃ bpp width left total, Layout traits spec g bpp width left total := by
  have hbpp := hs.bpp
  have hwidth := hs.width
  have hleft := hs.left
  have hright := hs.right
  have hedge : 0 ≤ leftEdge traits spec := by
    rw [leftEdge]
    split
    · lia
    · exact hleft
  have htotal : 0 ≤ outWidth traits spec := by
    rw [outWidth]
    lia
  obtain ⟨bpp, hb⟩ := Int.eq_ofNat_of_zero_le hbpp.le
  obtain ⟨width, hw⟩ := Int.eq_ofNat_of_zero_le hwidth.le
  obtain ⟨left, hl⟩ := Int.eq_ofNat_of_zero_le hedge
  obtain ⟨total, ht⟩ := Int.eq_ofNat_of_zero_le htotal
  exact ⟨bpp, width, left, total, {
    bppEq := hb
    widthEq := hw
    leftEq := hl
    totalEq := ht
    bppPos := by lia
    widthPos := by lia
    inBytes := by
      rw [hs.inBytes, hb, hw]
      rfl
    outBytes := by
      rw [hs.outBytes, hb, ht]
      rfl
    leftBytes := by
      rw [hs.leftBytes, hb, hl]
      rfl
    value := hs.value }⟩

theorem Layout.rowFits_iff (hl : Layout traits spec g bpp width left total) :
    RowFits traits spec ↔
      g.dwLeftPadBytes.toNat + g.dwInBytesPerRow.toNat ≤ g.dwOutBytesPerRow.toNat ∧
        8 ∣ bpp * left ∧ (8 ∣ bpp * width ∨ total ≤ left + width) := by
  rw [RowFits, hl.bppEq, hl.widthEq, hl.leftEq, hl.totalEq, hl.inBytes, hl.outBytes, hl.leftBytes]
  refine and_congr ?_ (and_congr ?_ (or_congr ?_ ?_)) <;> exact_mod_cast Iff.rfl

theorem Layout.pixels (hl : Layout traits spec g bpp width left total)
    (hadds : g.dwLeftPadBytes.toNat + g.dwInBytesPerRow.toNat + g.dwRightPadBytes.toNat
      = g.dwOutBytesPerRow.toNat)
    (hbyte : 8 ∣ bpp * left) (hlast : 8 ∣ bpp * width ∨ total ≤ left + width)
    {buf : List UInt8} (hbuf : g.dwInBytesPerRow.toNat ≤ buf.length) {x : Nat} (hx : x < total) :
    pixel bpp (rowOut g (some buf)) x =
      if left ≤ x ∧ x < left + width then pixel bpp buf (x - left)
      else padPixel bpp g.bPadVal x := by
  obtain ⟨edge, hedge⟩ := hbyte
  have hstart : 8 * g.dwLeftPadBytes.toNat = bpp * left := by
    rw [hl.leftBytes, bytesFor]
    lia
  have hrow := (bytesFor_bounds (bpp * width)).1
  rw [← hl.inBytes] at hrow
  by_cases hbefore : x < left
  · -- before the row of the input
    rw [if_neg (by lia), padPixel]
    refine pixel_eq_iff.mpr fun j hj => ?_
    have hcell : bpp * (x + 1) ≤ bpp * left := Nat.mul_le_mul_left bpp hbefore
    rw [Nat.mul_add] at hcell
    rw [bit_left (by lia), bit_padPixel hj]
  by_cases hafter : left + width ≤ x
  · -- behind it: its last byte is full
    rw [if_neg (by lia), padPixel]
    refine pixel_eq_iff.mpr fun j hj => ?_
    have hfull : 8 ∣ bpp * width := by
      rcases hlast with h | h
      · exact h
      · lia
    obtain ⟨k, hk⟩ := hfull
    have hin : 8 * g.dwInBytesPerRow.toNat = bpp * width := by
      rw [hl.inBytes, bytesFor]
      lia
    have hcell : bpp * (left + width) ≤ bpp * x := Nat.mul_le_mul_left bpp hafter
    have hend : bpp * (x + 1) ≤ bpp * total := Nat.mul_le_mul_left bpp hx
    have hout := (bytesFor_bounds (bpp * total)).1
    rw [← hl.outBytes] at hout
    rw [Nat.mul_add] at hcell hend
    rw [bit_right hbuf (by lia) (by lia), bit_padPixel hj]
  · -- a pixel of the input
    rw [if_pos ⟨by lia, by lia⟩]
    refine pixel_eq_iff.mpr fun j hj => ?_
    obtain ⟨y, rfl⟩ := Nat.exists_eq_add_of_le (Nat.le_of_not_lt hbefore)
    have hcell : bpp * (y + 1) ≤ bpp * width := Nat.mul_le_mul_left bpp (by lia)
    rw [Nat.mul_add] at hcell
    rw [Nat.add_sub_cancel_left, Nat.mul_add, ← hstart, Nat.add_assoc,
      bit_inside hbuf (by lia)]

theorem RowFits.padsRows (hs : Started traits spec g) (hfit : RowFits traits spec) :
    PadsRows traits spec g := by
  obtain ⟨bpp, width, left, total, hl⟩ := hs.exists_layout
  obtain ⟨hbytes, hbyte, hlast⟩ := hl.rowFits_iff.mp hfit
  have hadds : g.dwLeftPadBytes.toNat + g.dwInBytesPerRow.toNat + g.dwRightPadBytes.toNat
      = g.dwOutBytesPerRow.toNat := by
    have hin : g.dwInBytesPerRow ≤ g.dwOutBytesPerRow := by
      rw [UInt32.le_iff_toNat_le]
      lia
    have hrest := UInt32.toNat_sub_of_le _ _ hin
    have hleft : g.dwLeftPadBytes ≤ g.dwOutBytesPerRow - g.dwInBytesPerRow := by
      rw [UInt32.le_iff_toNat_le, hrest]
      lia
    rw [hs.rightBytes, UInt32.toNat_sub_of_le _ _ hleft, hrest]
    lia
  refine ⟨hadds, fun g₁ inputBuf avail hreached hbuf havail => ?_⟩
  have hsame := hreached.layout
  -- a row that is written, white or not, has the bytes of a row
  have hlen : ∀ (g₂ : Inst) (row : Option (List UInt8)), SameLayout g g₂ →
      (∀ buf ∈ row, g.dwInBytesPerRow.toNat ≤ buf.length) →
        (rowOut g₂ row).length = g.dwOutBytesPerRow.toNat := by
    intro g₂ row hg₂ hrow
    rw [hg₂.rowOut]
    cases row with
    | none => exact length_white g
    | some buf => rw [length_padded (hrow buf rfl), hadds]
  have hcall : ∀ (g₂ : Inst) (row : Option (List UInt8)), SameLayout g g₂ →
      (∀ buf ∈ row, g.dwInBytesPerRow.toNat ≤ buf.length) →
        ∃ c g₃, outputRow g₂ row avail = .ok (c, g₃) ∧ c.outBuf = rowOut g row ∧
          (Has c.result ipConsumedRow ↔ row.isSome) := by
    intro g₂ row hg₂ hrow
    obtain ⟨c, g₃, hc⟩ := outputRow_returns row (by rwa [hg₂.inBytes])
      (by rw [hlen g₂ row hg₂ hrow, hg₂.outBytes]) (by rwa [hg₂.outBytes] : g₂.dwOutBytesPerRow ≤ avail)
    have hout := outputRow_ok hc
    exact ⟨c, g₃, hc, by rw [hout.bytes, hg₂.rowOut], hout.consumed⟩
  have hrowLen : ∀ row : Option (List UInt8),
      (∀ buf ∈ row, g.dwInBytesPerRow.toNat ≤ buf.length) →
        (rowOut g row).length = bytesFor (traits.iBitsPerPixel * outWidth traits spec).toNat :=
    fun row hrow => by rw [hlen g row (SameLayout.refl g) hrow, hs.outBytes]
  cases inputBuf with
  | none =>
    rw [convert]
    by_cases hmin : g₁.dwInRows < g₁.dwMinInRows
    · obtain ⟨c, g₃, hc, hout, -⟩ := hcall { g₁ with dwInRows := g₁.dwInRows + 1 } none
        ⟨hsame.1, hsame.2, hsame.3, hsame.4, hsame.5, hsame.6⟩ nofun
      refine ⟨c, g₃, by rw [if_pos hmin, hc], fun _ => by rw [hout, hrowLen none nofun], nofun⟩
    by_cases hbot : 0 < g₁.dwBottom
    · obtain ⟨c, g₃, hc, hout, -⟩ := hcall { g₁ with dwBottom := g₁.dwBottom - 1 } none
        ⟨hsame.1, hsame.2, hsame.3, hsame.4, hsame.5, hsame.6⟩ nofun
      refine ⟨c, g₃, by rw [if_neg hmin, if_pos hbot, hc],
        fun _ => by rw [hout, hrowLen none nofun], nofun⟩
    · rw [if_neg hmin, if_neg hbot]
      exact ⟨_, g₁, rfl, fun hdone => absurd hdone (Crop.flush_unmarked), nofun⟩
  | some buf =>
    rw [convert]
    by_cases htop : g₁.dwOutRows < g₁.dwTop
    · obtain ⟨c, g₃, hc, hout, hconsumed⟩ := hcall g₁ none hsame nofun
      refine ⟨c, g₃, by rw [if_pos htop, hc], fun _ => by rw [hout, hrowLen none nofun],
        fun _ _ hrow => ?_⟩
      exact absurd (hconsumed.mp hrow) (by decide)
    · obtain ⟨c, g₃, hc, hout, -⟩ := hcall g₁ (some buf) hsame hbuf
      refine ⟨c, g₃, by rw [if_neg htop, hc], fun _ => by rw [hout, hrowLen _ hbuf], ?_⟩
      rintro _ ⟨rfl⟩ - x hx
      rw [hl.totalEq] at hx
      have hpixels := hl.pixels hadds hbyte hlast (hbuf buf rfl) (x := x) (by lia)
      rw [← hl.value, hl.bppEq, hl.leftEq, hl.widthEq, Int.toNat_natCast, hout, hpixels]
      have hsub : ((x : Int) - left).toNat = x - left := by lia
      rw [hsub]
      refine if_congr ?_ rfl rfl
      lia

theorem PadsRows.pixels (hs : Started traits spec g)
    (hl : Layout traits spec g bpp width left total) (h : PadsRows traits spec g)
    {buf : List UInt8} (hbuf : g.dwInBytesPerRow.toNat ≤ buf.length) {x : Nat} (hx : x < total) :
    pixel bpp (rowOut g (some buf)) x =
      if left ≤ x ∧ x < left + width then pixel bpp buf (x - left)
      else padPixel bpp g.bPadVal x := by
  obtain ⟨g₁, hreached, htop⟩ := reached_rows hs.outRows
  obtain ⟨c, g₂, hcall, -, hpixels⟩ := h.rows g₁ (some buf) g.dwOutBytesPerRow hreached
    (fun b hb => by rwa [← Option.some.inj hb]) (UInt32.le_refl _)
  rw [convert, if_neg htop] at hcall
  have hout := outputRow_ok hcall
  have hx' := hpixels buf rfl (hout.consumed.mpr rfl) x (by rw [hl.totalEq]; lia)
  rw [← hl.value, hl.bppEq, hl.leftEq, hl.widthEq, Int.toNat_natCast, hout.bytes,
    hreached.layout.rowOut] at hx'
  have hsub : ((x : Int) - left).toNat = x - left := by lia
  rw [hx', hsub]
  refine if_congr ?_ rfl rfl
  lia

theorem not_fixed_bit {k i : Nat} (hi : i < 8 * k) {b : Option Bool}
    (h : ∀ buf : List UInt8, k ≤ buf.length → bit buf i = b) : False := by
  have hzero : ∀ s < 8, (Bits.byteBits 0)[s]? = some false := by decide
  have hones : ∀ s < 8, (Bits.byteBits 0xff)[s]? = some true := by decide
  have hlow := h (List.replicate k 0) (by rw [List.length_replicate])
  have hhigh := h (List.replicate k 0xff) (by rw [List.length_replicate])
  rw [bit_replicate _ hi, hzero _ (Nat.mod_lt _ (by decide))] at hlow
  rw [bit_replicate _ hi, hones _ (Nat.mod_lt _ (by decide)), ← hlow] at hhigh
  exact absurd hhigh (by decide)

theorem PadsRows.left_on_byte (hs : Started traits spec g)
    (hl : Layout traits spec g bpp width left total) (h : PadsRows traits spec g) :
    8 ∣ bpp * left := by
  by_cases hone : traits.iBitsPerPixel = 1
  · have hedge := hl.leftEq
    rw [leftEdge, if_pos hone] at hedge
    have hbpp := hl.bppEq
    rw [hone] at hbpp
    obtain rfl : bpp = 1 := by lia
    lia
  by_contra hdiv
  have hpos := hl.widthPos
  have hbpp := hl.bppPos
  have htotal : left < total := by
    have hw := hl.widthEq
    have he := hl.leftEq
    have ht := hl.totalEq
    have hright := hs.right
    rw [leftEdge, if_neg hone] at he
    rw [outWidth] at ht
    lia
  have hin : 0 < 8 * g.dwInBytesPerRow.toNat := by
    have hrow := (bytesFor_bounds (bpp * width)).1
    have hmul : 0 < bpp * width := Nat.mul_pos hbpp hpos
    rw [hl.inBytes]
    lia
  have hlate : bpp * left < 8 * g.dwLeftPadBytes.toNat := by
    have hbounds := (bytesFor_bounds (bpp * left)).1
    rw [hl.leftBytes]
    lia
  refine not_fixed_bit hin (b := (Bits.byteBits g.bPadVal)[(bpp * left) % 8]?) fun buf hbuf => ?_
  have hpixel := h.pixels hs hl hbuf htotal
  rw [if_pos ⟨Nat.le_refl left, by lia⟩, Nat.sub_self] at hpixel
  have hbit := pixel_eq_iff.mp hpixel 0 hbpp
  rw [Nat.add_zero, bit_left hlate, Nat.mul_zero] at hbit
  exact hbit.symm

theorem PadsRows.last_full (hs : Started traits spec g)
    (hl : Layout traits spec g bpp width left total) (h : PadsRows traits spec g) :
    8 ∣ bpp * width ∨ total ≤ left + width := by
  by_contra hboth
  rw [not_or, Nat.not_le] at hboth
  obtain ⟨hdiv, htotal⟩ := hboth
  obtain ⟨edge, hedge⟩ := h.left_on_byte hs hl
  have hbpp := hl.bppPos
  have hstart : 8 * g.dwLeftPadBytes.toNat = bpp * left := by
    rw [hl.leftBytes, bytesFor]
    lia
  have hin : bpp * width < 8 * g.dwInBytesPerRow.toNat := by
    have hbounds := (bytesFor_bounds (bpp * width)).1
    rw [hl.inBytes]
    lia
  refine not_fixed_bit hin
    (b := (Bits.byteBits g.bPadVal)[(bpp * (left + width)) % 8]?) fun buf hbuf => ?_
  have hpixel := h.pixels hs hl hbuf htotal
  rw [if_neg (by lia), padPixel] at hpixel
  have hbit := pixel_eq_iff.mp hpixel 0 hbpp
  rw [bit_padPixel hbpp, Nat.add_zero, Nat.mul_add, ← hstart, bit_inside hbuf hin] at hbit
  rw [hbit, Nat.mul_add, hstart]

end Rows

/-- The byte counts add up and every row is padded as it should be exactly when the bytes fit. -/
theorem padsRows_iff {traits : IpImageTraits} {spec : XformSpec} {g : Inst}
    (hstart : start traits spec = .ok g)
    (hright : 0 ≤ ofDword spec.left → 0 ≤ ofDword spec.right) :
    PadsRows traits spec g ↔ RowFits traits spec := by
  have hs := started_of_start hright hstart
  constructor
  · intro h
    obtain ⟨bpp, width, left, total, hl⟩ := hs.exists_layout
    refine hl.rowFits_iff.mpr ⟨?_, h.left_on_byte hs hl, h.last_full hs hl⟩
    have hadds := h.adds
    omega
  · intro hfit
    exact hfit.padsRows hs

/-- A bilevel row of 9 pixels, with 8 more at the left and none at the right. -/
def nineTraits : IpImageTraits := ⟨9, 1, 1, 0x960000, 0x960000, 1, 1, 1⟩

def leftSpec : XformSpec := ⟨8, 0, 0, 0, 1, 0⟩

def shortTraits : IpImageTraits := ⟨1, 1, 1, 0x960000, 0x960000, 1, 1, 1⟩

def shortSpec : XformSpec := ⟨4, 0, 0, 0, 1, 0⟩

def shortInst : Inst :=
  ⟨shortTraits, 4, 0, 0, 0, 0, 1, 1, 1, 0xffffffff, 0xff, 0, 0, 0, 0⟩

theorem padsRows_iff_left :
    PadsRows nineTraits leftSpec ⟨nineTraits, 8, 0, 0, 0, 0, 2, 3, 1, 0, 0xff, 0, 0, 0, 0⟩ ↔
      RowFits nineTraits leftSpec :=
  padsRows_iff rfl (by decide)

/-- The right margin of a short bilevel row comes out as 2^32 - 1 bytes. -/
theorem short_row_not_padded :
    start shortTraits shortSpec = .ok shortInst ∧ ¬ PadsRows shortTraits shortSpec shortInst := by
  refine ⟨rfl, fun h => ?_⟩
  have hadds := h.adds
  revert hadds
  decide

end Hplip.Ip.Pad
