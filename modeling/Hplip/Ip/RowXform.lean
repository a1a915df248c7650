import Hplip.Ip.Rounds

/-!
# Transforms that turn rows into rows (xform.h)

A transform without a header that takes a row and gives a row at every call is a function of
rows. What one round of the main loop does with such a transform is said here field by field:
the header that is not there, a row, the flush that gives nothing.

- `RowXform`: the transforms, with the facts about their calls;
- `create_row`, `parseHeader_row`: a transform is made ready;
- `convertRow_row`, `convertRow_flush`: a row, and the end.
-/

namespace Hplip.Ip

/-! ## The transforms -/

/-- The four calls that make an instance succeed, and there is no header. -/
def XformTbl.SetsUp {σ : Type} (t : XformTbl σ) (Takes : IpImageTraits → Prop)
    (Ready : σ → Prop) : Prop :=
  ∀ traits, Takes traits →
    let opened := t.openXform
    let defaults := t.setDefaultInputTraits opened.2 traits
    let spec := t.setXformSpec defaults.2
    let header := t.getHeaderBufSize spec.2
    opened.1 = ipDone ∧ defaults.1 = ipDone ∧ spec.1 = ipDone ∧ header.1 = ipDone
      ∧ header.2.1 = 0 ∧ Ready header.2.2

def XformTbl.SkipsHeader {σ : Type} (t : XformTbl σ) (minIn minOut : Nat)
    (Gives : IpImageTraits → Prop) (Ready Start : σ → Prop) : Prop :=
  ∀ h len buf inTraits outTraits, Ready h →
    let r := t.getActualTraits h len buf inTraits outTraits
    let sizes := t.getActualBufSizes r.xform
    r.result = ipDone ||| ipReadyForData ∧ r.inUsed = 0 ∧ r.inNextPos = 0 ∧ Gives r.outTraits
      ∧ sizes.1 = minIn ∧ sizes.2.1 = minOut ∧ Start sizes.2.2

/-- A row is consumed and `f` of it put at the next position. -/
def XformTbl.Converts {σ : Type} (t : XformTbl σ) (minIn minOut : Nat)
    (f : List UInt8 → List UInt8) (At : Nat → UInt32 → σ → Prop) : Prop :=
  ∀ k p h len buf outLen outBuf, At k p h → minIn ≤ len → minOut ≤ outLen →
    let r := t.convert h len (some buf) outLen outBuf
    let row := f (slice buf 0 minIn)
    r.result = ipConsumedRow ||| ipProducedRow ||| ipReadyForData
      ∧ r.inUsed = minIn ∧ r.inNextPos = UInt32.ofNat ((k + 1) * minIn)
      ∧ r.outUsed = row.length ∧ r.outThisPos = p ∧ slice r.outBuf 0 row.length = row
      ∧ At (k + 1) (p + UInt32.ofNat row.length) r.xform

def XformTbl.Flushes {σ : Type} (t : XformTbl σ) (Last : σ → Prop) : Prop :=
  ∀ h len outLen outBuf, Last h →
    let r := t.convert h len none outLen outBuf
    r.result = ipDone ∧ r.inUsed = 0 ∧ r.outUsed = 0

/-- A transform that is a function of rows, for an image of `rows` rows: it takes and gives
images with certain traits, and an instance is ready for the header or has converted `k` rows
and gives the next one at position `p`. -/
structure RowXform (σ : Type) (rows : Nat) extends XformTbl σ where
  minIn : Nat
  minOut : Nat
  f : List UInt8 → List UInt8
  Takes : IpImageTraits → Prop
  Gives : IpImageTraits → Prop
  Ready : σ → Prop
  At : Nat → UInt32 → σ → Prop
  minIn_pos : 0 < minIn
  length_le : ∀ row, row.length = minIn → (f row).length ≤ minOut
  setsUp : toXformTbl.SetsUp Takes Ready
  skipsHeader : toXformTbl.SkipsHeader minIn minOut Gives Ready (At 0 0)
  converts : toXformTbl.Converts minIn minOut f At
  flushes : toXformTbl.Flushes fun h => ∃ p, At rows p h

section Row

variable {σ : Type} {rows : Nat} {tbl : Nat → XformTbl σ} {fresh : Bytes} {input : Option Bytes}
  {c : Core σ} {i : Nat}

/-! ## Making an instance -/

def Calm (result : UInt16) : Prop := result &&& permanentResults = 0

theorem and_or_right (a b m : UInt16) : (a ||| b) &&& m = (a &&& m) ||| (b &&& m) := by
  rw [← UInt16.toBitVec_inj]
  simp only [UInt16.toBitVec_and, UInt16.toBitVec_or]
  ext j
  simp [Bool.and_or_distrib_right]

instance (result : UInt16) : Decidable (Calm result) := inferInstanceAs (Decidable (_ = _))

theorem Calm.or {a b : UInt16} (ha : Calm a) (hb : Calm b) : Calm (a ||| b) := by
  rw [Calm, and_or_right, ha, hb]
  rfl

variable (fresh) in
theorem create_row (X : RowXform σ rows) (htbl : tbl i = X.toXformTbl)
    (hnew : (c.xform i).eState = .nonexistent)
    (hprior : i = 0 ∨ (c.xform (i - 1)).eState.IsConverting) (htakes : X.Takes (newTraits c.g i)) :
    ∃ h, X.Ready h ∧ create tbl fresh i c = .ok
      (let c' := c.setXform i { c.xform i with
        eState := .parsingHeader
        hXform := h
        inTraits := newTraits c.g i
        dwMinInBufLen := if i = 0 then 1 else 0 }
      if i = 0 then c'.setIn ⟨fresh, 1, 0, 0, 0⟩ else c') := by
  obtain ⟨hopened, hdefaults, hspec, hheader, hzero, hready⟩ := X.setsUp _ htakes
  refine ⟨_, hready, ?_⟩
  rw [create, if_pos hnew, htbl]
  dsimp only
  simp only [insure, hprior, hopened, hdefaults, hspec, hheader, hzero, if_pos, or_true, and_true]
  by_cases hi : i = 0
  · subst hi
    rfl
  · simp only [if_neg hi]
    rfl

/-- What no round changes but for the result: how many transforms there are, what the client
wants to be told, what it gave. -/
structure Steady (c c' : Core σ) : Prop where
  xfCount : c'.g.xfCount = c.g.xfCount
  pendingInsert : c'.g.pendingInsert = c.g.pendingInsert
  wResultMask : c'.g.wResultMask = c.g.wResultMask
  inAvail : c'.inAvail = c.inAvail
  inUsed : c'.inUsed = c.inUsed
  calm : Calm c.ipResult → Calm c'.ipResult

/-- The header of transform `i` was skipped: from `c` to `c'`. -/
structure HeaderRead (X : RowXform σ rows) (fresh : Bytes) (i : Nat) (c c' : Core σ) : Prop where
  steady : Steady c c'
  state : (c'.xform i).eState = .converting
  minIn : (c'.xform i).dwMinInBufLen = X.minIn
  start : X.At 0 0 (c'.xform i).hXform
  gives : X.Gives (c'.xform i).outTraits
  others : ∀ j, j ≠ i → c'.xform j = c.xform j
  iOwner : c'.g.iOwner = c.g.iOwner
  lInRows : c'.g.lInRows = c.g.lInRows
  lOutRows : c'.g.lOutRows = c.g.lOutRows
  gbIn : c'.g.gbIn = if i = 0 then (c.g.gbIn.consume 0 0).realloc fresh
    (max (max X.minIn minGenbufLen) (c.g.gbIn.consume 0 0).dwValidLen) else c.g.gbIn
  midValidLen : c'.g.dwMidValidLen = c.g.dwMidValidLen
  mid : ∀ k ≤ c.g.dwMidLen, slice c'.g.pbMidInBuf 0 k = slice c.g.pbMidInBuf 0 k
  midLen : c.g.dwMidLen ≤ c'.g.dwMidLen
  midFits : i ≠ c.g.xfCount - 1 → X.minOut ≤ c'.g.dwMidLen
  gbOut : i ≠ c.g.xfCount - 1 → c'.g.gbOut = c.g.gbOut
  gbOutFits : i = c.g.xfCount - 1 → c'.g.gbOut.dwValidLen = 0 ∧ X.minOut ≤ c'.g.gbOut.dwBufLen

theorem growMidBufs_row (fresh : Bytes) (n : Nat) (c : Core σ) :
    let c' := growMidBufs fresh n c
    Steady c c' ∧ (∀ j, c'.xform j = c.xform j) ∧ c'.g.iOwner = c.g.iOwner
      ∧ c'.g.lInRows = c.g.lInRows ∧ c'.g.lOutRows = c.g.lOutRows ∧ c'.g.gbIn = c.g.gbIn
      ∧ c'.g.gbOut = c.g.gbOut ∧ c'.g.dwMidValidLen = c.g.dwMidValidLen
      ∧ (∀ k ≤ c.g.dwMidLen, slice c'.g.pbMidInBuf 0 k = slice c.g.pbMidInBuf 0 k)
      ∧ c.g.dwMidLen ≤ c'.g.dwMidLen ∧ n ≤ c'.g.dwMidLen := by
  rw [growMidBufs]
  by_cases h : c.g.dwMidLen < n
  · rw [if_pos h]
    refine ⟨⟨rfl, rfl, rfl, rfl, rfl, id⟩, fun _ => rfl, rfl, rfl, rfl, rfl, rfl, rfl, ?_,
      Nat.le_of_lt h, Nat.le_refl n⟩
    intro k hk
    refine slice_congr fun j hj => ?_
    show blit fresh 0 c.g.pbMidInBuf c.g.dwMidLen (0 + j) = _
    rw [blit_add _ _ _ (by omega), Nat.zero_add]
  · rw [if_neg h]
    exact ⟨⟨rfl, rfl, rfl, rfl, rfl, id⟩, fun _ => rfl, rfl, rfl, rfl, rfl, rfl, rfl,
      fun _ _ => rfl, Nat.le_refl _, Nat.le_of_not_lt h⟩

theorem newOutBuf_row (fresh : Bytes) (i minOut : Nat) (c : Core σ) :
    let c' := newOutBuf fresh i minOut c
    Steady c c' ∧ (∀ j, c'.xform j = c.xform j)
      ∧ c'.g = { c.g with gbOut := c'.g.gbOut }
      ∧ (i ≠ c.g.xfCount - 1 → c'.g.gbOut = c.g.gbOut)
      ∧ (i = c.g.xfCount - 1 → c'.g.gbOut.dwValidLen = 0 ∧ minOut ≤ c'.g.gbOut.dwBufLen) := by
  rw [newOutBuf]
  by_cases h : i = c.g.xfCount - 1
  · rw [if_pos h]
    refine ⟨⟨rfl, rfl, rfl, rfl, rfl, fun hcalm => hcalm.or (by decide)⟩, fun _ => rfl, rfl,
      fun hne => absurd h hne, fun _ => ⟨rfl, le_max_left _ _⟩⟩
  · rw [if_neg h]
    exact ⟨⟨rfl, rfl, rfl, rfl, rfl, id⟩, fun _ => rfl, rfl, fun _ => rfl, fun heq => absurd heq h⟩

theorem newInBuf_row (fresh : Bytes) (i minIn : Nat) (c : Core σ) :
    let c' := newInBuf fresh i minIn c
    Steady c c' ∧ (∀ j, c'.xform j = c.xform j) ∧ c'.g = { c.g with gbIn := c'.g.gbIn }
      ∧ c'.g.gbIn = if i = 0 then
        c.g.gbIn.realloc fresh (max (max minIn minGenbufLen) c.g.gbIn.dwValidLen) else c.g.gbIn := by
  rw [newInBuf]
  by_cases h : i = 0
  · rw [if_pos h, if_pos h]
    exact ⟨⟨rfl, rfl, rfl, rfl, rfl, id⟩, fun _ => rfl, rfl, rfl⟩
  · rw [if_neg h, if_neg h]
    exact ⟨⟨rfl, rfl, rfl, rfl, rfl, id⟩, fun _ => rfl, rfl, rfl⟩

theorem Steady.trans {c c' c'' : Core σ} (h : Steady c c') (h' : Steady c' c'') : Steady c c'' :=
  ⟨h'.xfCount.trans h.xfCount, h'.pendingInsert.trans h.pendingInsert,
    h'.wResultMask.trans h.wResultMask, h'.inAvail.trans h.inAvail, h'.inUsed.trans h.inUsed,
    fun hcalm => h'.calm (h.calm hcalm)⟩

theorem headerDone_row (X : RowXform σ rows) (htbl : tbl i = X.toXformTbl) (c₀ : Core σ)
    {result : UInt16}
    (hready : Has result ipReadyForData)
    (hsizes : ((X.getActualBufSizes (c.xform i).hXform).1 = X.minIn
      ∧ (X.getActualBufSizes (c.xform i).hXform).2.1 = X.minOut
      ∧ X.At 0 0 (X.getActualBufSizes (c.xform i).hXform).2.2))
    (hgives : X.Gives (c.xform i).outTraits) (hsteady : Steady c₀ c)
    (hothers : ∀ j, j ≠ i → c.xform j = c₀.xform j)
    (hsame : c.g = { c₀.g with xfArray := c.g.xfArray, gbIn := c.g.gbIn })
    (hgbIn : c.g.gbIn = if i = 0 then c₀.g.gbIn.consume 0 0 else c₀.g.gbIn) :
    HeaderRead X fresh i c₀ (headerDone tbl fresh i result c) := by
  obtain ⟨hminIn, hminOut, hstart⟩ := hsizes
  rw [headerDone, htbl]
  dsimp only
  rw [hminIn, hminOut]
  generalize (X.getActualBufSizes (c.xform i).hXform).2.2 = h at hstart
  -- the steps in turn: the transform's own entry, the input genbuf, the mid-buffers, the output
  obtain ⟨hs₂, hx₂, hg₂, hin₂⟩ := newInBuf_row fresh i X.minIn (c.setXform i { c.xform i with
    hXform := h, dwMinInBufLen := X.minIn, dwMinOutBufLen := X.minOut })
  have hx₁ : (c.setXform i { c.xform i with
      hXform := h, dwMinInBufLen := X.minIn, dwMinOutBufLen := X.minOut }).xform i
      = { c.xform i with
        hXform := h, dwMinInBufLen := X.minIn, dwMinOutBufLen := X.minOut } := setXform_xform ..
  generalize newInBuf fresh i X.minIn _ = c₂ at *
  obtain ⟨hs₃, hx₃, howner₃, hlIn₃, hlOut₃, hin₃, hout₃, hvalid₃, hmid₃, hlen₃, hfits₃⟩ :=
    growMidBufs_row fresh (if i ≠ c₂.g.xfCount - 1 ∧ (if i = 0 then 0 else X.minIn) < X.minOut then
      X.minOut else if i = 0 then 0 else X.minIn) c₂
  generalize growMidBufs fresh _ c₂ = c₃ at *
  obtain ⟨hs₄, hx₄, hg₄, hout₄, htail₄⟩ := newOutBuf_row fresh i X.minOut c₃
  generalize newOutBuf fresh i X.minOut c₃ = c₄ at *
  have hx (j : Nat) : c₄.xform j = (c.setXform i { c.xform i with
      hXform := h, dwMinInBufLen := X.minIn, dwMinOutBufLen := X.minOut }).xform j :=
    (hx₄ j).trans ((hx₃ j).trans (hx₂ j))
  have hself : (selectCnvState i result c₄).xform i = { c.xform i with
      hXform := h, dwMinInBufLen := X.minIn, dwMinOutBufLen := X.minOut, eState := .converting } := by
    rw [selectCnvState, setXform_xform, hx, hx₁, if_pos hready]
  have hcount : c₃.g.xfCount = c₀.g.xfCount :=
    hs₃.xfCount.trans (hs₂.xfCount.trans hsteady.xfCount)
  have hmid : c₂.g.dwMidLen = c₀.g.dwMidLen ∧ c₂.g.pbMidInBuf = c₀.g.pbMidInBuf
      ∧ c₂.g.dwMidValidLen = c₀.g.dwMidValidLen ∧ c₂.g.iOwner = c₀.g.iOwner
      ∧ c₂.g.lInRows = c₀.g.lInRows ∧ c₂.g.lOutRows = c₀.g.lOutRows
      ∧ c₂.g.gbOut = c₀.g.gbOut := by
    rw [hg₂]
    show c.g.dwMidLen = _ ∧ c.g.pbMidInBuf = _ ∧ c.g.dwMidValidLen = _ ∧ c.g.iOwner = _
      ∧ c.g.lInRows = _ ∧ c.g.lOutRows = _ ∧ c.g.gbOut = _
    rw [hsame]
    exact ⟨rfl, rfl, rfl, rfl, rfl, rfl, rfl⟩
  obtain ⟨hmidLen, hmidBuf, hmidValid, howner, hlIn, hlOut, hgbOut⟩ := hmid
  have hselect : (selectCnvState i result c₄).g
      = { c₃.g with gbOut := c₄.g.gbOut, xfArray := (selectCnvState i result c₄).g.xfArray } := by
    have hown : (selectCnvState i result c₄).g
        = { c₄.g with xfArray := (selectCnvState i result c₄).g.xfArray } := rfl
    rw [hown]
    conv_lhs => rw [hg₄]
  exact
    { steady := hsteady.trans ((⟨rfl, rfl, rfl, rfl, rfl, id⟩ : Steady c (c.setXform i _)).trans
        (hs₂.trans (hs₃.trans (hs₄.trans ⟨rfl, rfl, rfl, rfl, rfl, id⟩))))
      state := congrArg XformInfo.eState hself
      minIn := congrArg XformInfo.dwMinInBufLen hself
      start := by
        rw [hself]
        exact hstart
      gives := by
        rw [hself]
        exact hgives
      others := fun j hj => by
        rw [selectCnvState, setXform_xform_of_ne _ _ hj, hx, setXform_xform_of_ne _ _ hj,
          hothers j hj]
      iOwner := by
        rw [hselect]
        exact howner₃.trans howner
      lInRows := by
        rw [hselect]
        exact hlIn₃.trans hlIn
      lOutRows := by
        rw [hselect]
        exact hlOut₃.trans hlOut
      gbIn := by
        rw [hselect]
        show c₃.g.gbIn = _
        rw [hin₃, hin₂]
        show (if i = 0 then c.g.gbIn.realloc fresh (max (max X.minIn minGenbufLen)
          c.g.gbIn.dwValidLen) else c.g.gbIn) = _
        rw [hgbIn]
        by_cases hi : i = 0
        · rw [if_pos hi, if_pos hi, if_pos hi]
        · rw [if_neg hi, if_neg hi, if_neg hi]
      midValidLen := by
        rw [hselect]
        exact hvalid₃.trans hmidValid
      mid := fun k hk => by
        rw [hselect]
        show slice c₃.g.pbMidInBuf 0 k = _
        rw [hmid₃ k (by rw [hmidLen]; exact hk), hmidBuf]
      midLen := by
        rw [hselect]
        show c₀.g.dwMidLen ≤ c₃.g.dwMidLen
        rw [← hmidLen]
        exact hlen₃
      midFits := fun hne => by
        rw [hselect]
        show X.minOut ≤ c₃.g.dwMidLen
        refine Nat.le_trans ?_ hfits₃
        have hne' : i ≠ c₂.g.xfCount - 1 := by
          rw [hs₂.xfCount.trans hsteady.xfCount]
          exact hne
        by_cases hlt : (if i = 0 then 0 else X.minIn) < X.minOut
        · rw [if_pos ⟨hne', hlt⟩]
        · rw [if_neg fun hcon => hlt hcon.2]
          exact Nat.le_of_not_lt hlt
      gbOut := fun hne => by
        rw [hselect]
        show c₄.g.gbOut = _
        rw [hout₄ (by rw [hcount]; exact hne), hout₃, hgbOut]
      gbOutFits := fun heq => by
        rw [hselect]
        exact htail₄ (by rw [hcount]; exact heq) }

theorem updateInput_zero (i : Nat) (need : Prop) [Decidable need] (next : UInt32) (c : Core σ) :
    updateInput i need 0 next c = if need ∧ i = 0 then c.setIn (c.g.gbIn.consume 0 next) else c := by
  rw [updateInput]
  dsimp only
  rw [if_neg fun h : 0 < 0 ∧ i ≠ 0 => absurd h.1 (Nat.lt_irrefl 0)]

variable (fresh) in
theorem parseHeader_row (X : RowXform σ rows) (htbl : tbl i = X.toXformTbl)
    (hready : X.Ready (c.xform i).hXform) :
    ∃ c', parseHeader tbl fresh i c = .ok c' ∧ HeaderRead X fresh i c c' := by
  obtain ⟨hresult, hused, hnext, hgives, hminIn, hminOut, hstart⟩ := X.skipsHeader
    (c.xform i).hXform (inputLen i c) (inputOf i c) (c.xform i).inTraits (c.xform i).outTraits hready
  rw [parseHeader, htbl]
  dsimp only
  rw [hresult, hused, hnext]
  generalize X.getActualTraits (c.xform i).hXform (inputLen i c) (inputOf i c) (c.xform i).inTraits
    (c.xform i).outTraits = r at *
  rw [insure, if_pos (by decide)]
  refine ⟨_, congrArg Except.ok (if_pos (by decide)), ?_⟩
  rw [updateInput_zero]
  let c₁ := c.setXform i { c.xform i with
    hXform := r.xform, inTraits := r.inTraits, outTraits := r.outTraits }
  have hself : c₁.xform i = { c.xform i with
      hXform := r.xform, inTraits := r.inTraits, outTraits := r.outTraits } := setXform_xform ..
  have hothers (j : Nat) (hj : j ≠ i) : c₁.xform j = c.xform j := setXform_xform_of_ne _ _ hj
  have hsizes : (X.getActualBufSizes (c₁.xform i).hXform).1 = X.minIn
      ∧ (X.getActualBufSizes (c₁.xform i).hXform).2.1 = X.minOut
      ∧ X.At 0 0 (X.getActualBufSizes (c₁.xform i).hXform).2.2 := by
    rw [hself]
    exact ⟨hminIn, hminOut, hstart⟩
  have hgives' : X.Gives (c₁.xform i).outTraits := by
    rw [hself]
    exact hgives
  by_cases hi : i = 0
  · rw [if_pos ⟨trivial, hi⟩]
    exact headerDone_row X htbl c (by decide) hsizes hgives' ⟨rfl, rfl, rfl, rfl, rfl, id⟩ hothers
      rfl (if_pos hi).symm
  · rw [if_neg fun h => hi h.2]
    exact headerDone_row X htbl c (by decide) hsizes hgives' ⟨rfl, rfl, rfl, rfl, rfl, id⟩ hothers
      rfl (if_neg hi).symm

/-! ## A row -/

abbrev rowResult : UInt16 := ipConsumedRow ||| ipProducedRow ||| ipReadyForData

theorem handleBits_row (tbl : Nat → XformTbl σ) (i : Nat) (c : Core σ) :
    let c' := handleBits tbl i rowResult c
    Steady c c' ∧ c'.g = { c.g with
      lInRows := c.g.lInRows + if i = 0 then 1 else 0
      lOutRows := c.g.lOutRows + if i = c.g.xfCount - 1 then 1 else 0 } := by
  have hhead : (if i = 0 then headBits rowResult c else c).g
      = { c.g with lInRows := c.g.lInRows + if i = 0 then 1 else 0 }
      ∧ Steady c (if i = 0 then headBits rowResult c else c) := by
    by_cases hi : i = 0
    · rw [if_pos hi, if_pos hi]
      exact ⟨rfl, rfl, rfl, rfl, rfl, rfl, fun hcalm => hcalm.or (by decide)⟩
    · rw [if_neg hi, if_neg hi]
      exact ⟨by rw [Int.add_zero], rfl, rfl, rfl, rfl, rfl, id⟩
  rw [handleBits]
  dsimp only
  generalize (if i = 0 then headBits rowResult c else c) = d at hhead
  obtain ⟨hg, hsteady⟩ := hhead
  by_cases htail : i = d.g.xfCount - 1
  · have htail' : i = c.g.xfCount - 1 := hsteady.xfCount ▸ htail
    rw [if_pos htail, if_pos htail']
    have hinsert : ¬ Has (rowResult &&& ipWriteInsertOk) d.g.wResultMask := by
      have hzero : rowResult &&& ipWriteInsertOk = 0 := by decide
      rw [hzero, Has, UInt16.zero_and]
      exact not_not_intro rfl
    have hbits : (tailBits rowResult d).g = { d.g with lOutRows := d.g.lOutRows + 1 } := by
      rw [tailBits]
      dsimp only
      rw [if_neg hinsert, if_pos (by decide), if_neg (by decide)]
    refine ⟨⟨?_, ?_, ?_, hsteady.inAvail, hsteady.inUsed,
      fun hcalm => (hsteady.calm hcalm).or (by decide)⟩, ?_⟩
    · rw [hbits]
      exact hsteady.xfCount
    · rw [hbits]
      exact hsteady.pendingInsert
    · rw [hbits]
      exact hsteady.wResultMask
    · rw [hbits, hg]
  · have htail' : ¬ i = c.g.xfCount - 1 := hsteady.xfCount ▸ htail
    rw [if_neg htail, if_neg htail', if_neg (by decide)]
    exact ⟨hsteady, by rw [hg, Int.add_zero]⟩

/-- A row was converted by transform `i`: it is in the next one's buffer, or in the output
genbuf. -/
structure RowRun (X : RowXform σ rows) (i k : Nat) (p : UInt32) (row : List UInt8)
    (c c' : Core σ) : Prop where
  steady : Steady c c'
  state : (c'.xform i).eState = .converting
  minIn : (c'.xform i).dwMinInBufLen = (c.xform i).dwMinInBufLen
  outTraits : (c'.xform i).outTraits = (c.xform i).outTraits
  next : X.At (k + 1) (p + UInt32.ofNat row.length) (c'.xform i).hXform
  others : ∀ j, j ≠ i → c'.xform j = c.xform j
  lInRows : c'.g.lInRows = c.g.lInRows + if i = 0 then 1 else 0
  lOutRows : c'.g.lOutRows = c.g.lOutRows + if i = c.g.xfCount - 1 then 1 else 0
  gbIn : c'.g.gbIn = if i = 0 then c.g.gbIn.consume X.minIn (UInt32.ofNat ((k + 1) * X.minIn))
    else c.g.gbIn
  midLen : c'.g.dwMidLen = c.g.dwMidLen
  handed : i ≠ c.g.xfCount - 1 → c'.g.iOwner = some (i + 1) ∧ c'.g.dwMidValidLen = row.length
    ∧ slice c'.g.pbMidInBuf 0 row.length = row ∧ c'.g.gbOut = c.g.gbOut
  given : i = c.g.xfCount - 1 → c'.g.iOwner = none ∧ c'.g.gbOut.dwBufLen = c.g.gbOut.dwBufLen
    ∧ c'.g.gbOut.dwValidLen = row.length
    ∧ slice c'.g.gbOut.pbBuf c'.g.gbOut.dwValidStart row.length = row
    ∧ (row ≠ [] → c'.g.gbOut.dwFilePos = p)

def outputLen (i : Nat) (c : Core σ) : Nat :=
  if i = c.g.xfCount - 1 then c.g.gbOut.dwBufLen else c.g.dwMidLen

structure HasRow (X : RowXform σ rows) (i k : Nat) (p : UInt32) (c : Core σ) : Prop where
  state : (c.xform i).eState = .converting
  at_k : X.At k p (c.xform i).hXform
  inLen : X.minIn ≤ inputLen i c
  outLen : X.minOut ≤ outputLen i c
  owner : i = 0 → c.g.iOwner = none
  empty : i = c.g.xfCount - 1 → c.g.gbOut.dwValidLen = 0
  next : i ≠ c.g.xfCount - 1 → X.f (slice (inputOf i c) 0 X.minIn) ≠ []

theorem updateInput_row {used : Nat} (hused : 0 < used) (next : UInt32) (c : Core σ)
    (howner : i = 0 → c.g.iOwner = none) :
    updateInput i True used next c = { c with g := { c.g with
      gbIn := if i = 0 then c.g.gbIn.consume used next else c.g.gbIn
      iOwner := none
      dwMidValidLen := if i = 0 then c.g.dwMidValidLen else 0 } } := by
  rw [updateInput]
  dsimp only
  by_cases hi : i = 0
  · rw [if_neg fun h : 0 < used ∧ i ≠ 0 => h.2 hi, if_pos ⟨trivial, hi⟩, if_pos hi, if_pos hi,
      ← howner hi]
    rfl
  · rw [if_pos (⟨hused, hi⟩ : 0 < used ∧ i ≠ 0), if_neg fun h : True ∧ i = 0 => hi h.2, if_neg hi,
      if_neg hi]

theorem updateOutput_row (i : Nat) (row : List UInt8) (p : UInt32) (c : Core σ)
    (howner : c.g.iOwner = none) (hnext : i ≠ c.g.xfCount - 1 → row ≠ []) :
    ∃ c', updateOutput i row.length p c = .ok c' ∧ Steady c c' ∧ (∀ j, c'.xform j = c.xform j)
      ∧ c'.g.lInRows = c.g.lInRows ∧ c'.g.lOutRows = c.g.lOutRows ∧ c'.g.gbIn = c.g.gbIn
      ∧ c'.g.dwMidLen = c.g.dwMidLen
      ∧ (i ≠ c.g.xfCount - 1 → c'.g.iOwner = some (i + 1) ∧ c'.g.dwMidValidLen = row.length
        ∧ c'.g.pbMidInBuf = c.g.pbMidOutBuf ∧ c'.g.gbOut = c.g.gbOut)
      ∧ (i = c.g.xfCount - 1 → c'.g.iOwner = none ∧ c'.g.gbOut =
        if row ≠ [] then
          { c.g.gbOut with dwFilePos := p, dwValidStart := 0, dwValidLen := row.length }
        else c.g.gbOut) := by
  rw [updateOutput]
  by_cases hrow : row = []
  · subst hrow
    have htail : i = c.g.xfCount - 1 := by
      by_contra hcon
      exact hnext hcon rfl
    exact ⟨c, if_neg (Nat.lt_irrefl 0), ⟨rfl, rfl, rfl, rfl, rfl, id⟩, fun _ => rfl, rfl, rfl, rfl, rfl,
      fun hne => absurd htail hne, fun _ => ⟨howner, rfl⟩⟩
  · rw [if_pos (List.length_pos_iff.mpr hrow)]
    by_cases htail : i = c.g.xfCount - 1
    · rw [if_pos htail]
      exact ⟨_, rfl, ⟨rfl, rfl, rfl, rfl, rfl, id⟩, fun _ => rfl, rfl, rfl, rfl, rfl,
        fun hne => absurd htail hne, fun _ => ⟨howner, (if_pos hrow).symm⟩⟩
    · rw [if_neg htail, insure, if_pos (by rw [howner]; rfl)]
      exact ⟨_, rfl, ⟨rfl, rfl, rfl, rfl, rfl, id⟩, fun _ => rfl, rfl, rfl, rfl, rfl,
        fun _ => ⟨rfl, rfl, rfl, rfl⟩, fun heq => absurd heq htail⟩

theorem rowBits_row (tbl : Nat → XformTbl σ) (hstate : (c.xform i).eState = .converting) :
    let c' := nextState i rowResult (handleBits tbl i rowResult c)
    Steady c c' ∧ c'.xform i = c.xform i ∧ (∀ j, j ≠ i → c'.xform j = c.xform j)
      ∧ c'.g = { c.g with
        xfArray := c'.g.xfArray
        lInRows := c.g.lInRows + if i = 0 then 1 else 0
        lOutRows := c.g.lOutRows + if i = c.g.xfCount - 1 then 1 else 0 } := by
  obtain ⟨hsteady, hg⟩ := handleBits_row tbl i c
  generalize handleBits tbl i rowResult c = d at *
  have hx (j : Nat) : d.xform j = c.xform j := by
    rw [Core.xform, hg]
    rfl
  have hnot : (d.xform i).eState ≠ .flushing := by
    rw [hx, hstate]
    decide
  rw [nextState, if_neg (by decide), if_pos hnot, selectCnvState, if_pos (by decide)]
  refine ⟨hsteady.trans ⟨rfl, rfl, rfl, rfl, rfl, id⟩, ?_, fun j hj => ?_, ?_⟩
  · rw [setXform_xform, hx, ← hstate]
  · rw [setXform_xform_of_ne _ _ hj, hx]
  · have harray (a : Nat → XformInfo σ) : ({ d.g with xfArray := a } : Inst σ) = { c.g with
        xfArray := a
        lInRows := c.g.lInRows + if i = 0 then 1 else 0
        lOutRows := c.g.lOutRows + if i = c.g.xfCount - 1 then 1 else 0 } := by rw [hg]
    exact harray _

theorem setOutBuf_row (c : Core σ) (i : Nat) (buf : Bytes) :
    Steady c (c.setOutBuf i buf) ∧ (c.setOutBuf i buf).g = { c.g with
      gbOut := if i = c.g.xfCount - 1 then { c.g.gbOut with pbBuf := buf } else c.g.gbOut
      pbMidOutBuf := if i = c.g.xfCount - 1 then c.g.pbMidOutBuf else buf } := by
  rw [Core.setOutBuf]
  by_cases htail : i = c.g.xfCount - 1
  · simp only [if_pos htail]
    exact ⟨⟨rfl, rfl, rfl, rfl, rfl, id⟩, trivial⟩
  · simp only [if_neg htail]
    exact ⟨⟨rfl, rfl, rfl, rfl, rfl, id⟩, trivial⟩

theorem stored_row (c : Core σ) (i : Nat) (x : XformInfo σ) (buf : Bytes) (call : Call) :
    let c₁ := ((c.setXform i x).setOutBuf i buf).logCall call
    Steady c c₁ ∧ c₁.xform i = x ∧ (∀ j, j ≠ i → c₁.xform j = c.xform j)
      ∧ c₁.g = { c.g with
        xfArray := c₁.g.xfArray
        gbOut := if i = c.g.xfCount - 1 then { c.g.gbOut with pbBuf := buf } else c.g.gbOut
        pbMidOutBuf := if i = c.g.xfCount - 1 then c.g.pbMidOutBuf else buf } := by
  obtain ⟨hs, hg⟩ := setOutBuf_row (c.setXform i x) i buf
  refine ⟨⟨hs.xfCount, hs.pendingInsert, hs.wResultMask, hs.inAvail, hs.inUsed, hs.calm⟩, ?_,
    fun j hj => ?_, ?_⟩
  · exact (setOutBuf_xform _ i i buf).trans (setXform_xform ..)
  · exact (setOutBuf_xform _ i j buf).trans (setXform_xform_of_ne _ _ hj)
  · have harray : ((c.setXform i x).setOutBuf i buf).g.xfArray = (c.setXform i x).g.xfArray := by
      rw [hg]
    refine hg.trans ?_
    show _ = ({ c.g with
      xfArray := ((c.setXform i x).setOutBuf i buf).g.xfArray
      gbOut := _
      pbMidOutBuf := _ } : Inst σ)
    rw [harray]
    rfl

theorem convertRow_row (X : RowXform σ rows) (htbl : tbl i = X.toXformTbl) {k : Nat} {p : UInt32}
    (h : HasRow X i k p c) :
    ∃ c', convertRow tbl i c = .ok c'
      ∧ RowRun X i k p (X.f (slice (inputOf i c) 0 X.minIn)) c c' := by
  obtain ⟨hresult, hused, hnext, hout, hpos, hrow, hat⟩ := X.converts k p (c.xform i).hXform
    (inputLen i c) (inputOf i c) (outputLen i c)
    (if i = c.g.xfCount - 1 then c.g.gbOut.pbBuf else c.g.pbMidOutBuf) h.at_k h.inLen h.outLen
  have hnonempty := h.next
  have hflush : ¬ (c.xform i).eState = .flushing := by
    rw [h.state]
    decide
  rw [convertRow, htbl]
  dsimp only
  rw [if_neg hflush]
  change ∃ c', (insure _ _ >>= _) = _ ∧ _
  rw [outputLen] at hresult hused hnext hout hpos hrow hat
  generalize hr : X.convert (c.xform i).hXform _ _ _ _ = r at *
  generalize X.f (slice (inputOf i c) 0 X.minIn) = row at *
  rw [hresult, hused, hnext, hout, hpos, insure, if_pos (by decide)]
  obtain ⟨call, hcall⟩ : ∃ call : Call, call = ⟨i, (c.xform i).eState, inputLen i c,
    some (inputOf i c), if i = c.g.xfCount - 1 then c.g.gbOut.dwBufLen else c.g.dwMidLen, rowResult,
    X.minIn, UInt32.ofNat ((k + 1) * X.minIn), row.length, p⟩ := ⟨_, rfl⟩
  obtain ⟨hsteady, hself, hothers, hg⟩ :=
    stored_row c i { c.xform i with hXform := r.xform } r.outBuf call
  rw [← hcall]
  generalize ((c.setXform i { c.xform i with hXform := r.xform }).setOutBuf i
    r.outBuf).logCall call = c₁ at *
  have hstate : (c₁.xform i).eState = .converting := by
    rw [hself]
    exact h.state
  have howner : i = 0 → c₁.g.iOwner = none := by
    rw [hg]
    exact h.owner
  have hin : updateInput i ((c.xform i).eState = .converting) X.minIn
      (UInt32.ofNat ((k + 1) * X.minIn)) c₁ = { c₁ with g := { c₁.g with
        gbIn := if i = 0 then c₁.g.gbIn.consume X.minIn (UInt32.ofNat ((k + 1) * X.minIn))
          else c₁.g.gbIn
        iOwner := none
        dwMidValidLen := if i = 0 then c₁.g.dwMidValidLen else 0 } } := by
    rw [← updateInput_row X.minIn_pos _ c₁ howner, updateInput, updateInput]
    simp only [h.state, true_and]
  show ∃ c', (updateOutput i row.length p (updateInput i ((c.xform i).eState = .converting) X.minIn
    (UInt32.ofNat ((k + 1) * X.minIn)) c₁) >>= _) = _ ∧ _
  rw [hin]
  obtain ⟨c₂, hc₂⟩ : ∃ c₂ : Core σ, c₂ = { c₁ with g := { c₁.g with
      gbIn := if i = 0 then c₁.g.gbIn.consume X.minIn (UInt32.ofNat ((k + 1) * X.minIn))
        else c₁.g.gbIn
      iOwner := none
      dwMidValidLen := if i = 0 then c₁.g.dwMidValidLen else 0 } } := ⟨_, rfl⟩
  rw [← hc₂]
  have hcount : c₂.g.xfCount = c.g.xfCount := by
    rw [hc₂]
    exact hsteady.xfCount
  obtain ⟨c₃, hc₃, hsteady₃, hx₃, hlIn₃, hlOut₃, hin₃, hmidLen₃, hhanded, hgiven⟩ :=
    updateOutput_row i row p c₂ (by rw [hc₂]) (by rw [hcount]; exact hnonempty)
  have hx (j : Nat) : c₃.xform j = c₁.xform j := by
    rw [hx₃, hc₂]
    rfl
  rw [hc₃]
  obtain ⟨hsteady₄, hself₄, hothers₄, hg₄⟩ := rowBits_row (c := c₃) tbl (by rw [hx]; exact hstate)
  refine ⟨_, rfl, ?_⟩
  show RowRun X i k p row c (nextState i rowResult (handleBits tbl i rowResult c₃))
  generalize nextState i rowResult (handleBits tbl i rowResult c₃) = c₄ at *
  have hcount₃ : c₃.g.xfCount = c.g.xfCount := hsteady₃.xfCount.trans hcount
  have hsteady₂ : Steady c₁ c₂ := by
    rw [hc₂]
    exact ⟨rfl, rfl, rfl, rfl, rfl, id⟩
  have hrun : c₄.xform i = { c.xform i with hXform := r.xform } := hself₄.trans ((hx i).trans hself)
  exact
    { steady := hsteady.trans (hsteady₂.trans (hsteady₃.trans hsteady₄))
      state := by
        rw [hrun]
        exact h.state
      minIn := by rw [hrun]
      outTraits := by rw [hrun]
      next := by
        rw [hrun]
        exact hat
      others := fun j hj => (hothers₄ j hj).trans ((hx j).trans (hothers j hj))
      lInRows := by
        rw [hg₄]
        show c₃.g.lInRows + _ = _
        rw [hlIn₃, hc₂]
        show c₁.g.lInRows + _ = _
        rw [hg]
      lOutRows := by
        rw [hg₄]
        show c₃.g.lOutRows + _ = _
        rw [hlOut₃, hcount₃, hc₂]
        show c₁.g.lOutRows + _ = _
        rw [hg]
      gbIn := by
        rw [hg₄]
        show c₃.g.gbIn = _
        rw [hin₃, hc₂]
        show (if i = 0 then c₁.g.gbIn.consume _ _ else c₁.g.gbIn) = _
        rw [hg]
      midLen := by
        rw [hg₄]
        show c₃.g.dwMidLen = _
        rw [hmidLen₃, hc₂]
        show c₁.g.dwMidLen = _
        rw [hg]
      handed := fun hne => by
        obtain ⟨howner₃, hvalid₃, hbuf₃, hout₃⟩ := hhanded (by rw [hcount]; exact hne)
        rw [hg₄]
        refine ⟨howner₃, hvalid₃, ?_, ?_⟩
        · show slice c₃.g.pbMidInBuf 0 row.length = row
          rw [hbuf₃, hc₂]
          show slice c₁.g.pbMidOutBuf 0 row.length = row
          rw [hg]
          show slice (if i = c.g.xfCount - 1 then _ else r.outBuf) 0 row.length = row
          rw [if_neg hne, hrow]
        · show c₃.g.gbOut = _
          rw [hout₃, hc₂]
          show c₁.g.gbOut = _
          rw [hg]
          exact if_neg hne
      given := fun heq => by
        obtain ⟨howner₃, hout₃⟩ := hgiven (by rw [hcount]; exact heq)
        have hbuf : c₂.g.gbOut = { c.g.gbOut with pbBuf := r.outBuf } := by
          rw [hc₂]
          show c₁.g.gbOut = _
          rw [hg]
          exact if_pos heq
        have hgbOut : c₄.g.gbOut = if row ≠ [] then
            { c.g.gbOut with
              pbBuf := r.outBuf, dwFilePos := p, dwValidStart := 0, dwValidLen := row.length }
            else { c.g.gbOut with pbBuf := r.outBuf } := by
          rw [hg₄]
          show c₃.g.gbOut = _
          rw [hout₃, hbuf]
        refine ⟨by rw [hg₄]; exact howner₃, ?_⟩
        rw [hgbOut]
        by_cases hempty : row = []
        · subst hempty
          exact ⟨rfl, h.empty heq, rfl, fun hne => absurd rfl hne⟩
        · rw [if_pos hempty]
          exact ⟨rfl, rfl, hrow, fun _ => rfl⟩ }

/-! ## The end -/

/-- Transform `i` is done: nothing came out. -/
structure Flushed (i : Nat) (c c' : Core σ) : Prop where
  steady : Steady c c'
  state : (c'.xform i).eState = .done
  outTraits : (c'.xform i).outTraits = (c.xform i).outTraits
  others : ∀ j, j ≠ i → c'.xform j = c.xform j
  lInRows : c'.g.lInRows = c.g.lInRows
  lOutRows : c'.g.lOutRows = c.g.lOutRows
  iOwner : c'.g.iOwner = c.g.iOwner
  midLen : c'.g.dwMidLen = c.g.dwMidLen
  gbIn : c'.g.gbIn = c.g.gbIn
  bufLen : c'.g.gbOut.dwBufLen = c.g.gbOut.dwBufLen
  validLen : c'.g.gbOut.dwValidLen = c.g.gbOut.dwValidLen

theorem handleBits_done (tbl : Nat → XformTbl σ) (i : Nat) (c : Core σ) :
    let c' := handleBits tbl i ipDone c
    Steady c c' ∧ c'.g = c.g := by
  have hhead : (if i = 0 then headBits ipDone c else c) = c := by
    by_cases hi : i = 0
    · rw [if_pos hi, headBits]
      dsimp only
      rw [if_neg (by decide), if_neg (by decide)]
    · rw [if_neg hi]
  rw [handleBits]
  dsimp only
  rw [hhead]
  by_cases htail : i = c.g.xfCount - 1
  · rw [if_pos htail]
    have hinsert : ¬ Has (ipDone &&& ipWriteInsertOk) c.g.wResultMask := by
      have hzero : ipDone &&& ipWriteInsertOk = 0 := by decide
      rw [hzero, Has, UInt16.zero_and]
      exact not_not_intro rfl
    have hbits : (tailBits ipDone c).g = c.g := by
      rw [tailBits]
      dsimp only
      rw [if_neg hinsert, if_neg (by decide), if_neg (by decide)]
    rw [hbits]
    exact ⟨⟨by rw [hbits], by rw [hbits], by rw [hbits], rfl, rfl,
      fun hcalm => hcalm.or (by decide)⟩, rfl⟩
  · rw [if_neg htail, if_neg (by decide)]
    exact ⟨⟨rfl, rfl, rfl, rfl, rfl, id⟩, rfl⟩

theorem convertRow_flush (X : RowXform σ rows) (htbl : tbl i = X.toXformTbl) {p : UInt32}
    (hstate : (c.xform i).eState = .flushing) (hat : X.At rows p (c.xform i).hXform) :
    ∃ c', convertRow tbl i c = .ok c' ∧ Flushed i c c' := by
  obtain ⟨hresult, hused, hout⟩ := X.flushes (c.xform i).hXform (inputLen i c)
    (if i = c.g.xfCount - 1 then c.g.gbOut.dwBufLen else c.g.dwMidLen)
    (if i = c.g.xfCount - 1 then c.g.gbOut.pbBuf else c.g.pbMidOutBuf) ⟨p, hat⟩
  rw [convertRow, htbl]
  dsimp only
  rw [if_pos hstate]
  generalize X.convert (c.xform i).hXform _ none _ _ = r at *
  rw [hresult, hused, hout, insure, if_pos (by decide), updateInput_zero]
  obtain ⟨hs, hg⟩ := setOutBuf_row (c.setXform i { c.xform i with hXform := r.xform }) i r.outBuf
  have hx (j : Nat) : ((c.setXform i { c.xform i with hXform := r.xform }).setOutBuf i
      r.outBuf).xform j = (c.setXform i { c.xform i with hXform := r.xform }).xform j :=
    setOutBuf_xform _ i j r.outBuf
  generalize (c.setXform i { c.xform i with hXform := r.xform }).setOutBuf i r.outBuf = c₁ at *
  have hneed : ¬ ((c.xform i).eState = .converting ∧ i = 0) := by
    rw [hstate]
    exact fun h => absurd h.1 (by decide)
  rw [if_neg hneed, updateOutput]
  refine ⟨_, rfl, ?_⟩
  obtain ⟨hs₂, hg₂⟩ := handleBits_done tbl i (c₁.logCall
    ⟨i, (c.xform i).eState, inputLen i c, none,
      if i = c.g.xfCount - 1 then c.g.gbOut.dwBufLen else c.g.dwMidLen, ipDone, 0, r.inNextPos, 0,
      r.outThisPos⟩)
  show Flushed i c (nextState i ipDone (handleBits tbl i ipDone _))
  generalize handleBits tbl i ipDone _ = c₂ at *
  rw [nextState, if_pos (by decide)]
  have hsame : (c₂.setXform i { c₂.xform i with eState := .done }).g
      = { c.g with
        xfArray := (c₂.setXform i { c₂.xform i with eState := .done }).g.xfArray
        gbOut := c₁.g.gbOut
        pbMidOutBuf := c₁.g.pbMidOutBuf } := by
    have harray (a : Nat → XformInfo σ) : ({ c₂.g with xfArray := a } : Inst σ) = { c.g with
        xfArray := a
        gbOut := c₁.g.gbOut
        pbMidOutBuf := c₁.g.pbMidOutBuf } := by
      rw [hg₂]
      show ({ c₁.g with xfArray := a } : Inst σ) = _
      rw [hg]
      rfl
    exact harray _
  have hgbOut : c₁.g.gbOut.dwBufLen = c.g.gbOut.dwBufLen
      ∧ c₁.g.gbOut.dwValidLen = c.g.gbOut.dwValidLen := by
    rw [hg]
    by_cases htail : i = (c.setXform i { c.xform i with hXform := r.xform }).g.xfCount - 1
    · rw [if_pos htail]
      exact ⟨rfl, rfl⟩
    · rw [if_neg htail]
      exact ⟨rfl, rfl⟩
  exact
    { steady :=
        ⟨hs₂.xfCount.trans hs.xfCount, hs₂.pendingInsert.trans hs.pendingInsert,
          hs₂.wResultMask.trans hs.wResultMask, hs₂.inAvail.trans hs.inAvail,
          hs₂.inUsed.trans hs.inUsed, fun hcalm => hs₂.calm (hs.calm hcalm)⟩
      state := by rw [setXform_xform]
      outTraits := by
        rw [setXform_xform, Core.xform, hg₂]
        show (c₁.xform i).outTraits = _
        rw [hx, setXform_xform]
      others := fun j hj => by
        rw [setXform_xform_of_ne _ _ hj, Core.xform, hg₂]
        exact (hx j).trans (setXform_xform_of_ne _ _ hj)
      lInRows := by rw [hsame]
      lOutRows := by rw [hsame]
      iOwner := by rw [hsame]
      midLen := by rw [hsame]
      gbIn := by rw [hsame]
      bufLen := by
        rw [hsame]
        exact hgbOut.1
      validLen := by
        rw [hsame]
        exact hgbOut.2 }

end Row

end Hplip.Ip
