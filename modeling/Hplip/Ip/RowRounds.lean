import Mathlib
import Hplip.Ip.InputPosition
import Hplip.Ip.RowPipeline

/-!
# The rounds of a pipeline of row transforms (ipmain.c)

Each round of the main loop that goes on makes one step of the job: a transform is past its
header, or the row in flight passes a transform, or the next row comes in, or a transform is
done. The other rounds leave the call.
-/

namespace Hplip.Ip

open Loop

variable {σ : Type} {rows : Nat} {X : Nat → RowXform σ rows} {n : Nat} {img : List UInt8}
  {fed k i m d : Nat} {got : List UInt8}

/-! ## The input genbuf -/

theorem HeadBuf.leftJustify {b : GenBuf} {len : Nat} (h : HeadBuf X img b fed k len) (want : Nat) :
    HeadBuf X img (b.leftJustify want) fed k len := by
  obtain ⟨hvalid, hpos⟩ := leftJustify_same b want
  have hfits := h.fits
  refine ⟨?_, hvalid ▸ h.validLen, ?_, ?_, hpos ▸ h.filePos⟩
  · rw [hvalid, ← h.bytes]
    unfold GenBuf.leftJustify
    split
    · refine slice_congr fun j hj => ?_
      show blit b.pbBuf 0 (fun k => b.pbBuf (b.dwValidStart + k)) b.dwValidLen (0 + j) = _
      rw [blit_add _ _ _ hj]
    · rfl
  · unfold GenBuf.leftJustify
    split
    · show 0 + b.dwValidLen ≤ b.dwBufLen
      omega
    · exact hfits
  · unfold GenBuf.leftJustify
    split
    · exact h.room
    · exact h.room

theorem HeadBuf.fill {b : GenBuf} {len count avail : Nat} (src : Bytes)
    (h : HeadBuf X img b fed k len) (hcount : count ≤ b.dwBufLen - (b.dwValidStart + b.dwValidLen))
    (hle : count ≤ avail) (hsrc : slice src 0 avail = (img.drop fed).take avail)
    (hrest : fed + avail ≤ img.length) :
    HeadBuf X img (b.fill src count) (fed + count) k len := by
  have hfits := h.fits
  have hvalid := h.validLen
  have hbytes : slice src 0 count = (img.drop fed).take count := by
    rw [← take_slice src 0 hle, hsrc, List.take_take, Nat.min_eq_left hle]
  refine ⟨?_, ?_, ?_, h.room, h.filePos⟩
  · show slice (blit b.pbBuf (b.dwValidStart + b.dwValidLen) src count) b.dwValidStart
      (b.dwValidLen + count) = _
    rw [slice_add, slice_blit_of_disjoint (.inl (Nat.le_refl _)), slice_blit_self, h.bytes, hbytes,
      List.take_add, List.drop_append_of_le_length]
    rw [List.length_take]
    lia
  · show k * (X 0).minIn + (b.dwValidLen + count) = fed + count
    lia
  · show b.dwValidStart + (b.dwValidLen + count) ≤ b.dwBufLen
    lia

theorem HeadBuf.row {b : GenBuf} {len : Nat} (h : HeadBuf X img b fed k len)
    (hlen : (X 0).minIn ≤ b.dwValidLen) :
    slice b.pbBuf b.dwValidStart (X 0).minIn = rowOf X img k := by
  have hvalid := h.validLen
  rw [← take_slice b.pbBuf b.dwValidStart hlen, h.bytes, rowOf, List.drop_take, List.take_take,
    Nat.min_eq_left (by lia)]

theorem HeadBuf.consume {b : GenBuf} {len : Nat} (h : HeadBuf X img b fed k len)
    (hlen : (X 0).minIn ≤ b.dwValidLen) :
    HeadBuf X img (b.consume (X 0).minIn (UInt32.ofNat ((k + 1) * (X 0).minIn))) fed (k + 1) len := by
  have hvalid := h.validLen
  have hfits := h.fits
  have hmul : (k + 1) * (X 0).minIn = k * (X 0).minIn + (X 0).minIn := Nat.succ_mul ..
  rw [GenBuf.consume]
  by_cases hall : (X 0).minIn ≥ b.dwValidLen
  · rw [if_pos hall, if_neg (not_not.mpr rfl)]
    refine ⟨?_, ?_, Nat.zero_le _, h.room, rfl⟩
    · show slice b.pbBuf 0 0 = _
      rw [slice_zero, List.drop_eq_nil_of_le]
      rw [List.length_take]
      lia
    · show (k + 1) * (X 0).minIn + 0 = fed
      lia
  · rw [if_neg hall]
    have hnext : b.dwFilePos + UInt32.ofNat (X 0).minIn
        = UInt32.ofNat ((k + 1) * (X 0).minIn) := by
      rw [h.filePos, hmul, UInt32.ofNat_add]
    rw [if_neg (not_not.mpr hnext)]
    refine ⟨?_, ?_, ?_, h.room, hnext⟩
    · show slice b.pbBuf (b.dwValidStart + (X 0).minIn) (b.dwValidLen - (X 0).minIn) = _
      rw [← drop_slice b.pbBuf hlen, h.bytes, List.drop_drop, hmul]
    · show (k + 1) * (X 0).minIn + (b.dwValidLen - (X 0).minIn) = fed
      lia
    · show b.dwValidStart + (X 0).minIn + (b.dwValidLen - (X 0).minIn) ≤ b.dwBufLen
      lia

theorem HeadBuf.realloc {b : GenBuf} {len size : Nat} {fresh : Bytes} (h : HeadBuf X img b fed 0 len)
    (hsize : (X 0).minIn ≤ size) (hvalid : (b.consume 0 0).dwValidLen ≤ size) :
    HeadBuf X img ((b.consume 0 0).realloc fresh size) fed 0 (X 0).minIn := by
  have hsame : (b.consume 0 0).dwValidLen = b.dwValidLen
      ∧ slice (b.consume 0 0).pbBuf (b.consume 0 0).dwValidStart b.dwValidLen
        = slice b.pbBuf b.dwValidStart b.dwValidLen := by
    have hpos : b.dwFilePos = 0 := by
      have hpos := h.filePos
      rw [Nat.zero_mul] at hpos
      exact hpos
    rw [GenBuf.consume]
    by_cases hzero : 0 ≥ b.dwValidLen
    · have hnone : b.dwValidLen = 0 := Nat.le_zero.mp hzero
      rw [if_pos hzero, if_neg (not_not.mpr rfl), hnone]
      exact ⟨rfl, rfl⟩
    · have hnext : b.dwFilePos + UInt32.ofNat 0 = 0 := by
        rw [hpos]
        rfl
      rw [if_neg hzero, if_neg (not_not.mpr hnext)]
      exact ⟨rfl, rfl⟩
  obtain ⟨hlen, hbytes⟩ := hsame
  refine ⟨?_, ?_, ?_, hsize, ?_⟩
  · show slice (blit fresh 0 (fun k => (b.consume 0 0).pbBuf ((b.consume 0 0).dwValidStart + k))
      (b.consume 0 0).dwValidLen) 0 (b.consume 0 0).dwValidLen = _
    rw [slice_blit_self, hlen, ← h.bytes, ← hbytes]
    exact slice_congr fun j _ => by rw [Nat.zero_add]
  · show 0 * (X 0).minIn + (b.consume 0 0).dwValidLen = fed
    rw [hlen]
    exact h.validLen
  · show 0 + (b.consume 0 0).dwValidLen ≤ size
    omega
  · show (b.consume 0 0).dwFilePos = _
    rw [consume_filePos, Nat.zero_mul]
    rfl

/-! ## The first transform -/

/-- What the client presents is what comes next of the image, and with a `NULL` input there is
nothing left of it. -/
def Offers (img : List UInt8) (input : Option Bytes) (fed : Nat) (c : Core σ) : Prop :=
  match input with
  | none => fed = img.length
  | some src => slice (fun j => src (c.inUsed + j)) 0 c.inAvail = (img.drop fed).take c.inAvail
    ∧ fed + c.inAvail ≤ img.length

section Head

variable {c c' : Core σ} {fresh : Bytes} {input : Option Bytes}

theorem Place.before (h : Place rows n img fed k i 0 d) : k = 0 ∧ i = n ∧ d = 0 := by
  have hi := h.i_pos
  have hk : k = 0 := by
    by_contra hne
    by_cases hone : k = 1
    · have := h.first hone
      lia
    · have := h.later (by lia)
      have := h.i_le
      lia
  exact ⟨hk, (h.start hk).1, Nat.le_zero.mp h.d_le⟩

theorem Flow.headBuf (h : Flow X n img c.g fed got k i m 0)
    (hborn : (c.xform 0).eState ≠ .nonexistent) :
    HeadBuf X img c.g.gbIn fed k (c.xform 0).dwMinInBufLen := by
  cases h.head with
  | unborn _ hstate => exact absurd hstate hborn
  | parsing hm hstate hminIn hready hbuf =>
    subst hm
    obtain ⟨rfl, -, -⟩ := h.place.before
    rw [Core.xform, hminIn]
    exact hbuf
  | converting hm hbuf =>
    have hwaiting := h.transforms.waiting 0 (Nat.le_refl 0) hm
    rw [Core.xform, hwaiting.minIn]
    exact hbuf rfl

theorem Flow.setIn {b : GenBuf} {fed' : Nat} (h : Flow X n img c.g fed got k i m 0)
    (hborn : (c.xform 0).eState ≠ .nonexistent)
    (hbuf : HeadBuf X img b fed' k (c.xform 0).dwMinInBufLen) (hfed : fed' ≤ img.length) :
    Flow X n img { c.g with gbIn := b } fed' got k i m 0 := by
  obtain ⟨hplace, hcount, htransforms, hhead, hmid, htail, hlIn, hlOut, hpending, hmask⟩ := h
  refine ⟨{ hplace with fed_le := hfed, ending := fun h0 => absurd h0 (Nat.lt_irrefl 0) }, hcount,
    htransforms, ?_, ⟨hmid.owner, hmid.row, hmid.fits⟩, htail, hlIn, hlOut, hpending, hmask⟩
  cases hhead with
  | unborn _ hstate => exact absurd hstate hborn
  | parsing hm hstate hminIn hready hold =>
    subst hm
    obtain ⟨rfl, -, -⟩ := hplace.before
    rw [Core.xform, hminIn] at hbuf
    exact .parsing rfl hstate hminIn hready hbuf
  | converting hm hold =>
    have hwaiting := htransforms.waiting 0 (Nat.le_refl 0) hm
    rw [Core.xform, hwaiting.minIn] at hbuf
    exact .converting hm fun _ => hbuf

theorem Flow.setXform {x : XformInfo σ} (h : Flow X n img c.g 0 got k i 0 d)
    (hstate : x.eState = .parsingHeader) (hminIn : x.dwMinInBufLen = 1)
    (hready : (X 0).Ready x.hXform) :
    Flow X n img ((c.setXform 0 x).setIn ⟨fresh, 1, 0, 0, 0⟩).g 0 got k i 0 d := by
  obtain ⟨hplace, hcount, htransforms, hhead, hmid, htail, hlIn, hlOut, hpending, hmask⟩ := h
  have hself : ((c.setXform 0 x).setIn ⟨fresh, 1, 0, 0, 0⟩).g.xfArray 0 = x := setXform_xform c 0 x
  have hothers (j : Nat) (hj : j ≠ 0) :
      ((c.setXform 0 x).setIn ⟨fresh, 1, 0, 0, 0⟩).g.xfArray j = c.g.xfArray j :=
    setXform_xform_of_ne c x hj
  refine ⟨hplace, hcount, ⟨?_, ?_, ?_, ?_⟩, ?_, ⟨hmid.owner, hmid.row, hmid.fits⟩, htail, hlIn, hlOut,
    hpending, hmask⟩
  · intro j hj
    rw [hplace.before.2.2] at hj
    exact absurd hj (Nat.not_lt_zero j)
  · exact fun j _ hj => absurd hj (Nat.not_lt_zero j)
  · exact fun j hj => absurd hj (Nat.not_lt_zero j)
  · intro j hj h0 hn
    rw [hothers j (Nat.ne_of_gt h0)]
    exact htransforms.unborn j hj h0 hn
  · refine .parsing rfl ?_ ?_ ?_ ⟨?_, Nat.zero_mul _, Nat.zero_le 1, Nat.le_refl 1, ?_⟩
    · rw [hself]
      exact hstate
    · rw [hself]
      exact hminIn
    · rw [hself]
      exact hready
    · show slice fresh 0 0 = _
      rw [slice_zero, List.take_zero, List.drop_nil]
    · show 0 = UInt32.ofNat (0 * (X 0).minIn)
      rw [Nat.zero_mul]
      rfl

theorem Flow.made (h : Flow X n img c.g fed got k i 0 d)
    (hnew : (c.xform 0).eState = .nonexistent) :
    ∃ c', create (tblOf X) fresh 0 c = .ok c'
      ∧ Flow X n img c'.g fed got k i 0 d ∧ (c'.xform 0).eState = .parsingHeader
      ∧ c' = { c with g := c'.g } ∧ c'.g.gbOut = c.g.gbOut
      ∧ c'.g.wResultMask = c.g.wResultMask := by
  have hold : fed = 0 ∧ (X 0).Takes (c.g.xfArray 0).inTraits := by
    cases h.head with
    | unborn _ _ hfed htakes => exact ⟨hfed, htakes⟩
    | parsing _ hstate =>
      rw [Core.xform, hstate] at hnew
      cases hnew
    | converting hm => exact absurd hm (Nat.lt_irrefl 0)
  obtain ⟨rfl, htakes⟩ := hold
  obtain ⟨y, hready, hcreate⟩ := create_row fresh (X 0) (rfl : tblOf X 0 = _) hnew (.inl rfl) htakes
  refine ⟨_, hcreate, ?_, ?_, rfl, rfl, rfl⟩
  · exact h.setXform rfl rfl hready
  · exact congrArg XformInfo.eState (setXform_xform c 0 _)

structure Took (fed fed' : Nat) (c c' : Core σ) : Prop where
  g : c'.g = { c.g with gbIn := c'.g.gbIn }
  ipResult : c'.ipResult = c.ipResult
  inUsed : fed + c'.inUsed = fed' + c.inUsed

theorem Flow.gets (h : Flow X n img c.g fed got k i m 0)
    (hborn : (c.xform 0).eState ≠ .nonexistent) (hneed : NeedInput c 0)
    (hoffers : Offers img input fed c) :
    ∃ c' fed', Flow X n img c'.g fed' got k i m 0 ∧ Offers img input fed' c' ∧ Took fed fed' c c'
      ∧ (takeInput input 0 c = .error ⟨false, c'⟩ ∧ input ≠ none
        ∨ takeInput input 0 c = .ok c'
          ∧ (input = none ∧ c' = c ∨ (c.xform 0).dwMinInBufLen ≤ c'.g.gbIn.dwValidLen)) := by
  cases input with
  | none =>
    refine ⟨c, fed, h, hoffers, ⟨rfl, rfl, rfl⟩, .inr ⟨?_, .inl ⟨rfl, rfl⟩⟩⟩
    rw [takeInput, if_pos hneed, if_neg (not_not.mpr rfl)]
  | some src =>
    obtain ⟨hsrc, hrest⟩ := hoffers
    have hbuf := (h.headBuf hborn).leftJustify (c.xform 0).dwMinInBufLen
    obtain ⟨count, hcount⟩ : ∃ count, count =
        (c.g.gbIn.leftJustify (c.xform 0).dwMinInBufLen).room c.inAvail := ⟨_, rfl⟩
    have hle : count ≤ c.inAvail := by
      rw [hcount]
      exact min_le_right _ _
    have hfull := hbuf.fill (fun j => src (c.inUsed + j))
      (by rw [hcount]; exact min_le_left _ _) hle hsrc hrest
    refine ⟨fillInput src c, fed + count, ?_, ⟨?_, ?_⟩, ⟨rfl, rfl, ?_⟩, ?_⟩
    · rw [fillInput]
      dsimp only
      rw [← hcount]
      exact h.setIn hborn hfull (by lia)
    · rw [fillInput]
      dsimp only
      rw [← hcount]
      have hdrop := congrArg (List.drop count) hsrc
      rw [drop_slice _ hle, List.drop_take, List.drop_drop] at hdrop
      rw [← hdrop, Nat.zero_add]
      refine slice_congr fun j _ => ?_
      rw [Nat.zero_add, Nat.add_assoc]
    · rw [fillInput]
      dsimp only
      rw [← hcount]
      show fed + count + (c.inAvail - count) ≤ img.length
      lia
    · rw [fillInput]
      dsimp only
      rw [← hcount]
      show fed + (c.inUsed + count) = fed + count + c.inUsed
      lia
    · rw [takeInput, if_pos hneed, if_neg (not_not.mpr rfl)]
      dsimp only
      by_cases hlack : (fillInput src c).g.gbIn.dwValidLen < ((fillInput src c).xform 0).dwMinInBufLen
      · rw [if_pos hlack]
        exact .inl ⟨rfl, (by rintro ⟨⟩)⟩
      · rw [if_neg hlack]
        exact .inr ⟨rfl, .inr (Nat.le_of_not_lt hlack)⟩

theorem Flow.headHeader (h : Flow X n img c.g fed got k i 0 d)
    (hempty : c.g.gbOut.dwValidLen = 0) (hstate : (c.xform 0).eState = .parsingHeader)
    (hrun : HeaderRead (X 0) fresh 0 c c') : Flow X n img c'.g fed got k i 1 d := by
  obtain ⟨hplace, hcount, htransforms, hhead, hmid, htail, hlIn, hlOut, hpending, hmask⟩ := h
  obtain ⟨rfl, rfl, rfl⟩ := hplace.before
  have hn := hplace.i_pos
  have hbuf : HeadBuf X img c.g.gbIn fed 0 1 := by
    cases hhead with
    | unborn _ hnew =>
      rw [Core.xform, hnew] at hstate
      cases hstate
    | parsing _ _ _ _ hbuf => exact hbuf
    | converting hm => exact absurd hm (Nat.lt_irrefl 0)
  exact
    { place := { hplace with
        d_le := Nat.zero_le _
        m_le := hn
        start := fun _ => ⟨rfl, Nat.le_refl 1⟩
        first := fun h1 => absurd h1 (by decide)
        later := fun h1 => absurd h1 (by decide) }
      xfCount := hrun.steady.xfCount.trans hcount
      transforms := by
        refine htransforms.afterHeader (Nat.le_refl 0) hrun.others ?_ hrun.gives
        rw [passed_all hn]
        exact waiting_zero hrun.state hrun.minIn hrun.start
      head := by
        refine .converting Nat.one_pos fun _ => ?_
        rw [hrun.gbIn, if_pos rfl]
        exact hbuf.realloc (Nat.le_trans (le_max_left _ _) (le_max_left _ _)) (le_max_right _ _)
      mid := hmid.afterHeader hcount hrun rfl
      tail := htail.afterHeader hcount hn hempty hrun rfl
      lInRows := hrun.lInRows.trans hlIn
      lOutRows := hrun.lOutRows.trans hlOut
      pendingInsert := hrun.steady.pendingInsert.trans hpending
      mask := hrun.steady.wResultMask ▸ hmask }

theorem Flow.headRow (h : Flow X n img c.g fed got k n m 0) (hm : 0 < m)
    (himg : img.length = rows * (X 0).minIn) (hempty : c.g.gbOut.dwValidLen = 0)
    (hvalid : (X 0).minIn ≤ c.g.gbIn.dwValidLen)
    (hle : (stage X 1 (rowOf X img k)).length ≤ (X 0).minOut)
    (hrun : RowRun (X 0) 0 k (UInt32.ofNat (given X img 0 k).length) (stage X 1 (rowOf X img k)) c c') :
    Flow X n img c'.g fed got (k + 1) 1 m 0 := by
  obtain ⟨hplace, hcount, htransforms, hhead, hmid, htail, hlIn, hlOut, hpending, hmask⟩ := h
  have hn := hplace.i_pos
  have hbuf : HeadBuf X img c.g.gbIn fed k (X 0).minIn := by
    cases hhead with
    | unborn h0 => exact absurd h0 (Nat.ne_of_gt hm)
    | parsing h0 => exact absurd h0 (Nat.ne_of_gt hm)
    | converting _ hbuf => exact hbuf rfl
  have hk : k < rows := by
    by_contra hcon
    have hfed := hbuf.validLen
    have hend := Nat.mul_le_mul_right (X 0).minIn (Nat.le_of_not_lt hcon)
    have hpos := (X 0).minIn_pos
    have hle := hplace.fed_le
    lia
  have hfirst : passed k n 0 = k := passed_all hn
  have hrest (j : Nat) (hj : j ≠ 0) : passed (k + 1) 1 j = k := if_neg (by lia)
  exact
    { place := { hplace with
        i_pos := Nat.one_pos
        i_le := hn
        k_le := hk
        d_le := Nat.zero_le m
        start := fun h0 => absurd h0 (Nat.succ_ne_zero k)
        first := fun h1 => by
          obtain rfl : k = 0 := Nat.succ.inj h1
          have := (hplace.start rfl).2
          lia
        later := fun h1 => by
          by_cases hone : k = 1
          · have := (hplace.first hone).1
            have := hplace.m_le
            lia
          · exact hplace.later (by lia)
        ending := fun h0 => absurd h0 (Nat.lt_irrefl 0) }
      xfCount := hrun.steady.xfCount.trans hcount
      transforms := by
        refine htransforms.afterRow (Nat.le_refl 0) hrun.others (fun j hj h0 => ?_) hm ?_
          hrun.outTraits
        · rw [hrest j h0, passed_all (Nat.lt_of_lt_of_le hj hplace.m_le)]
        · rw [passed_succ]
          refine Waiting.next ?_ rfl rfl rfl hrun
          have hwaiting := htransforms.waiting 0 (Nat.le_refl 0) hm
          rw [hfirst] at hwaiting
          exact hwaiting
      head := by
        refine .converting hm fun _ => ?_
        rw [hrun.gbIn, if_pos rfl]
        exact hbuf.consume hvalid
      mid := hmid.afterRow hcount hn hrun rfl fun hne =>
        Nat.le_trans hle (hmid.fits 0 hm (by lia))
      tail := by
        have hrun' := hrun
        rw [← hfirst] at hrun'
        refine htail.afterRow hcount hempty hrun' ?_ ?_ (fun hne => ?_) ?_
        · rw [hfirst]
        · rw [hfirst]
        · rw [hrest _ hne, passed_all (by lia)]
        · rw [passed_succ, hfirst]
      lInRows := by
        rw [hrun.lInRows, if_pos rfl, hlIn]
        rfl
      lOutRows := by
        rw [hrun.lOutRows, hcount, hlOut, passed_all (by lia)]
        by_cases hlast : 0 = n - 1
        · rw [if_pos hlast, ← hlast, passed_succ]
          rfl
        · rw [if_neg hlast, hrest _ (Ne.symm hlast), Int.add_zero]
      pendingInsert := hrun.steady.pendingInsert.trans hpending
      mask := hrun.steady.wResultMask ▸ hmask }

theorem Flow.flush (h : Flow X n img c.g fed got rows n m d) (hdm : d < m)
    (hfed : fed = img.length) (hrun : Flushed d c c') (hbytes : c.g.gbOut.dwValidLen = 0) :
    Flow X n img c'.g fed got rows n m (d + 1) := by
  obtain ⟨hplace, hcount, htransforms, hhead, hmid, htail, hlIn, hlOut, hpending, hmask⟩ := h
  have hzero : c'.g.gbOut.dwValidLen = 0 := hrun.validLen.trans hbytes
  exact
    { place := { hplace with
        d_le := hdm
        ending := fun _ => ⟨rfl, rfl, hfed⟩ }
      xfCount := hrun.steady.xfCount.trans hcount
      transforms :=
        { done := fun j hj => by
            by_cases heq : j = d
            · subst heq
              exact hrun.state
            · refine Eq.trans (congrArg XformInfo.eState (hrun.others j heq)) ?_
              exact htransforms.done j (by lia)
          waiting := fun j hdj hj => by
            have hwaiting := htransforms.waiting j (by lia) hj
            rw [← Core.xform, ← hrun.others j (by lia)] at hwaiting
            exact hwaiting
          gives := fun j hj => by
            by_cases heq : j = d
            · subst heq
              exact hrun.outTraits ▸ htransforms.gives j hj
            · have hgives := htransforms.gives j hj
              rw [← Core.xform, ← hrun.others j heq] at hgives
              exact hgives
          unborn := fun j hj h0 hn => by
            refine Eq.trans (congrArg XformInfo.eState (hrun.others j (by lia))) ?_
            exact htransforms.unborn j hj h0 hn }
      head := .converting (by lia) fun h0 => absurd h0 (Nat.succ_ne_zero d)
      mid := ⟨hrun.iOwner.trans hmid.owner, fun hlt => absurd hlt (Nat.lt_irrefl n),
        fun j hj hjn => hrun.midLen ▸ hmid.fits j hj hjn⟩
      tail := by
        refine ⟨?_, fun hne => absurd hzero hne, fun hm => hrun.bufLen ▸ htail.fits hm⟩
        have hout := htail.bytes
        rw [hbytes] at hout
        rw [hzero]
        exact hout
      lInRows := hrun.lInRows.trans hlIn
      lOutRows := hrun.lOutRows.trans hlOut
      pendingInsert := hrun.steady.pendingInsert.trans hpending
      mask := hrun.steady.wResultMask ▸ hmask }

end Head

/-! ## The transform that is run -/

section Select

variable {c : Core σ}

theorem Flow.state (h : Flow X n img c.g fed got k i m d) {j : Nat} (hj : j < n) :
    ((c.g.xfArray j).eState = .done ↔ j < d) ∧ (c.g.xfArray j).eState ≠ .convNotRfd := by
  have hdm := h.place.d_le
  by_cases hd : j < d
  · rw [h.transforms.done j hd]
    exact ⟨⟨fun _ => hd, fun _ => rfl⟩, by decide⟩
  by_cases hm : j < m
  · rw [(h.transforms.waiting j (Nat.le_of_not_lt hd) hm).state]
    exact ⟨⟨nofun, fun hcon => absurd hcon hd⟩, by decide⟩
  by_cases h0 : 0 < j
  · rw [h.transforms.unborn j (Nat.le_of_not_lt hm) h0 hj]
    exact ⟨⟨nofun, fun hcon => absurd hcon hd⟩, by decide⟩
  · obtain rfl : j = 0 := Nat.eq_zero_of_not_pos h0
    cases h.head with
    | unborn _ hstate =>
      rw [hstate]
      exact ⟨⟨nofun, fun hcon => absurd hcon hd⟩, by decide⟩
    | parsing _ hstate =>
      rw [hstate]
      exact ⟨⟨nofun, fun hcon => absurd hcon hd⟩, by decide⟩
    | converting h0 => exact absurd h0 hm

theorem Flow.selected (h : Flow X n img c.g fed got k i m d) :
    select c.g = if i < n then some i else if d < n then some d else none := by
  rw [select, h.mid.owner, h.xfCount]
  by_cases hi : i < n
  · rw [if_pos hi, if_pos hi]
    rfl
  · rw [if_neg hi, if_neg hi]
    have hready : (List.range n).reverse.find?
        (fun j => decide ((c.g.xfArray j).eState = .convNotRfd)) = none := by
      refine List.find?_eq_none.mpr fun j hj => ?_
      rw [List.mem_reverse, List.mem_range] at hj
      rw [decide_eq_true_eq]
      exact (h.state hj).2
    rw [hready]
    show (List.range n).find? (fun j => decide ((c.g.xfArray j).eState ≠ .done)) = _
    by_cases hd : d < n
    · rw [if_pos hd, List.find?_range_eq_some]
      refine ⟨?_, List.mem_range.mpr hd, fun j hj => ?_⟩
      · rw [decide_eq_true_eq, ne_eq, (h.state hd).1]
        exact Nat.lt_irrefl d
      · rw [Bool.not_eq_true', decide_eq_false_iff_not, not_not, (h.state (by omega)).1]
        exact hj
    · rw [if_neg hd, List.find?_eq_none]
      intro j hj
      rw [decide_eq_true_eq, not_not, (h.state (List.mem_range.mp hj)).1]
      have := List.mem_range.mp hj
      omega

end Select

section Run

variable {tbl : Nat → XformTbl σ} {fresh : Bytes} {input : Option Bytes} {c c₁ c₂ c₃ : Core σ} {j : Nat}

theorem runXform_of_ok (hcreate : create tbl fresh j c = .ok c₁)
    (hflush : enterFlushing input j c₁ = c₂) (htake : takeInput input j c₂ = .ok c₃)
    (hempty : c₃.g.gbOut.dwValidLen = 0) :
    runXform tbl fresh input j c = if (c₃.xform j).eState = .parsingHeader then
      parseHeader tbl fresh j c₃ else convertRow tbl j c₃ := by
  rw [runXform, hcreate]
  show (takeInput input j (enterFlushing input j c₁) >>= _) = _
  rw [hflush, htake]
  show (insure _ c₃ >>= _) = _
  rw [insure, if_pos fun _ => hempty]
  rfl

theorem runXform_of_error {e : Leave σ} (hcreate : create tbl fresh j c = .ok c₁)
    (hflush : enterFlushing input j c₁ = c₂) (htake : takeInput input j c₂ = .error e) :
    runXform tbl fresh input j c = .error e := by
  rw [runXform, hcreate]
  show (takeInput input j (enterFlushing input j c₁) >>= _) = _
  rw [hflush, htake]
  rfl

theorem create_of_born (hborn : (c.xform j).eState ≠ .nonexistent) : create tbl fresh j c = .ok c :=
  if_neg hborn

theorem Flow.room (h : Flow X n img c.g fed got k i m d) (hj : j < m) :
    (X j).minOut ≤ outputLen j c := by
  have hle := h.place.m_le
  rw [outputLen, h.xfCount]
  by_cases hlast : j = n - 1
  · rw [if_pos hlast, hlast]
    exact h.tail.fits (by lia)
  · rw [if_neg hlast]
    exact h.mid.fits j hj (by lia)

theorem Flow.inFlight (h : Flow X n img c.g fed got k i m d) (hi : i < n) :
    d = 0 ∧ k ≠ 0 ∧ k - 1 < rows := by
  have hk : k ≠ 0 := fun h0 => absurd (h.place.start h0).1 (Nat.ne_of_lt hi)
  have hle := h.place.k_le
  refine ⟨?_, hk, by lia⟩
  by_contra hne
  exact absurd (h.place.ending (Nat.pos_of_ne_zero hne)).2.1 (Nat.ne_of_lt hi)

theorem takeInput_of_row (hi : i < n) (hpos : 0 < i) (hmid : Mid X n img c.g k i m)
    (hrow : stage X i (rowOf X img (k - 1)) ≠ []) : takeInput input i c = .ok c := by
  have hvalid : 0 < c.g.dwMidValidLen := by
    refine Nat.pos_of_ne_zero fun h0 => hrow ?_
    rw [← (hmid.row hi).1, h0, slice_zero]
  unfold takeInput
  by_cases hneed : NeedInput c i
  · rw [if_pos hneed, if_pos (Nat.ne_of_gt hpos), insure, if_pos]
    · rfl
    · rw [hmid.owner, if_pos hi]
      exact ⟨rfl, hvalid⟩
  · rw [if_neg hneed]

theorem Flow.takes (h : Flow X n img c.g fed got k i m d) (hchain : Chained X n) (hpos : 0 < m)
    (hm : m < n) : (X m).Takes (newTraits c.g m) := by
  obtain ⟨j, rfl⟩ := Nat.exists_eq_add_of_le' hpos
  have hgives := h.transforms.gives j (Nat.lt_succ_self j)
  rw [newTraits, if_neg (Nat.succ_ne_zero j)]
  dsimp only
  rw [Nat.add_sub_cancel]
  by_cases hlast : j + 1 = c.g.xfCount - 1
  · rw [if_pos hlast]
    exact hchain.traits j hm _ _ _ hgives
  · rw [if_neg hlast]
    exact hchain.traits j hm _ _ _ hgives

variable (fresh input) in
theorem Flow.runHeader (h : Flow X n img c.g fed got k i i d) (hchain : Chained X n)
    (himg : img.length = rows * (X 0).minIn) (hi : i < n) (hempty : c.g.gbOut.dwValidLen = 0) :
    ∃ c', runXform (tblOf X) fresh input i c = .ok c' ∧ Flow X n img c'.g fed got k i (i + 1) d
      ∧ Steady c c' := by
  have hpos := h.place.i_pos
  obtain ⟨rfl, -, hk⟩ := h.inFlight hi
  have hnew := h.transforms.unborn i (Nat.le_refl i) hpos hi
  have hprior : (c.xform (i - 1)).eState = .converting :=
    (h.transforms.waiting (i - 1) (Nat.zero_le _) (by lia)).state
  obtain ⟨y, hready, hcreate⟩ := create_row fresh (X i)
    (rfl : tblOf X i = _) hnew (.inr (by rw [hprior]; trivial))
    (h.takes hchain hpos hi)
  dsimp only at hcreate
  rw [if_neg (Nat.ne_of_gt hpos), if_neg (Nat.ne_of_gt hpos)] at hcreate
  generalize hx : ({ c.xform i with
    eState := .parsingHeader, hXform := y, inTraits := newTraits c.g i, dwMinInBufLen := 0 }
    : XformInfo σ) = x at hcreate
  have hself : (c.setXform i x).xform i = x := setXform_xform c i x
  have hstate : ((c.setXform i x).xform i).eState = .parsingHeader := by
    rw [hself, ← hx]
  have hflush : enterFlushing input i (c.setXform i x) = c.setXform i x := by
    refine if_neg fun hcon => ?_
    rw [hstate] at hcon
    exact absurd hcon.1 (by decide)
  have htake : takeInput input i (c.setXform i x) = .ok (c.setXform i x) :=
    takeInput_of_row hi hpos ⟨h.mid.owner, h.mid.row, h.mid.fits⟩
      (stage_ne_nil hchain (rowOf_length himg hk) hi)
  obtain ⟨c', hparse, hrun⟩ := parseHeader_row fresh (c := c.setXform i x) (X i)
    (rfl : tblOf X i = _) (by rw [hself, ← hx]; exact hready)
  refine ⟨c', ?_, h.afterHeader hi rfl hempty hrun.of_setXform, hrun.of_setXform.steady⟩
  rw [runXform_of_ok hcreate hflush htake hempty, if_pos hstate]
  exact hparse

theorem enterFlushing_of_row (hpos : 0 < i) (hprior : (c.xform (i - 1)).eState ≠ .done) :
    enterFlushing input i c = c := by
  refine if_neg fun hcon => ?_
  rcases hcon.2 with ⟨h0, -⟩ | ⟨-, hdone, -⟩
  · exact Nat.ne_of_gt hpos h0
  · exact hprior hdone

variable (fresh input) in
theorem Flow.runRow (h : Flow X n img c.g fed got k i m d) (hchain : Chained X n)
    (himg : img.length = rows * (X 0).minIn) (hi : i < n) (hm : i < m)
    (hempty : c.g.gbOut.dwValidLen = 0) :
    ∃ c', runXform (tblOf X) fresh input i c = .ok c' ∧ Flow X n img c'.g fed got k (i + 1) m d
      ∧ Steady c c' := by
  have hpos := h.place.i_pos
  obtain ⟨rfl, hk0, hk⟩ := h.inFlight hi
  have hlen := rowOf_length himg hk
  have hwaiting := h.transforms.waiting i (Nat.zero_le i) hm
  have hstate : (c.xform i).eState = .converting := hwaiting.state
  have hborn : (c.xform i).eState ≠ .nonexistent := by
    rw [hstate]
    decide
  have hflush : enterFlushing input i c = c := by
    refine enterFlushing_of_row hpos ?_
    rw [Core.xform, (h.transforms.waiting (i - 1) (Nat.zero_le _) (by lia)).state]
    decide
  have htake : takeInput input i c = .ok c :=
    takeInput_of_row hi hpos h.mid (stage_ne_nil hchain hlen hi)
  -- the mid-buffer holds what the transform before gave
  obtain ⟨hrow, -⟩ := h.mid.row hi
  have hin : (X i).minIn ≤ c.g.dwMidValidLen := by
    have hle := stage_length hchain hlen hi
    rwa [← hrow, slice_length] at hle
  have hgives : (X i).f (slice (inputOf i c) 0 (X i).minIn) = stage X (i + 1) (rowOf X img (k - 1)) := by
    rw [inputOf, if_neg (Nat.ne_of_gt hpos), stage, ← hrow, take_slice _ 0 hin]
  have hat := hwaiting.at_k
  have hhas : HasRow (X i) i (passed k i i) (UInt32.ofNat (given X img i (passed k i i)).length) c :=
    { state := hstate
      at_k := hat
      inLen := by
        rw [inputLen, if_neg (Nat.ne_of_gt hpos)]
        exact hin
      outLen := h.room hm
      owner := fun h0 => absurd h0 (Nat.ne_of_gt hpos)
      empty := fun _ => hempty
      next := fun hne => by
        rw [h.xfCount] at hne
        rw [hgives]
        exact stage_ne_nil hchain hlen (by lia) }
  obtain ⟨c', hconvert, hrun⟩ := convertRow_row (X i) (rfl : tblOf X i = _) hhas
  rw [hgives] at hrun
  refine ⟨c', ?_, h.afterRow hi hm hempty (stage_le hchain hlen hi) hrun, hrun.steady⟩
  rw [runXform_of_ok (create_of_born hborn) hflush htake hempty, if_neg (by rw [hstate]; decide)]
  exact hconvert

theorem Flushed.of_setXform {x : XformInfo σ} {c' : Core σ} (h : Flushed j (c.setXform j x) c')
    (hx : x.outTraits = (c.xform j).outTraits) : Flushed j c c' where
  steady := ⟨h.steady.xfCount, h.steady.pendingInsert, h.steady.wResultMask, h.steady.inAvail,
    h.steady.inUsed, h.steady.calm⟩
  state := h.state
  outTraits := by
    rw [h.outTraits, setXform_xform]
    exact hx
  others := fun l hl => (h.others l hl).trans (setXform_xform_of_ne _ _ hl)
  lInRows := h.lInRows
  lOutRows := h.lOutRows
  iOwner := h.iOwner
  midLen := h.midLen
  gbIn := h.gbIn
  bufLen := h.bufLen
  validLen := h.validLen

variable (fresh input) in
theorem Flow.runFlush (h : Flow X n img c.g fed got rows n m d) (hdm : d < m)
    (hfed : fed = img.length) (hend : d = 0 → input = none ∧ c.g.gbIn.dwValidLen = 0)
    (hempty : c.g.gbOut.dwValidLen = 0) :
    ∃ c', runXform (tblOf X) fresh input d c = .ok c'
      ∧ Flow X n img c'.g fed got rows n m (d + 1) ∧ Steady c c' := by
  have hwaiting := h.transforms.waiting d (Nat.le_refl d) hdm
  have hstate : (c.xform d).eState = .converting := hwaiting.state
  have hborn : (c.xform d).eState ≠ .nonexistent := by
    rw [hstate]
    decide
  obtain ⟨x, hx⟩ : ∃ x, x = { c.xform d with eState := .flushing } := ⟨_, rfl⟩
  have hself : (c.setXform d x).xform d = x := setXform_xform c d x
  have hflushing : ((c.setXform d x).xform d).eState = .flushing := by
    rw [hself, hx]
  have hflush : enterFlushing input d c = c.setXform d x := by
    rw [enterFlushing, if_pos, hx]
    refine ⟨hstate, ?_⟩
    by_cases h0 : d = 0
    · obtain ⟨rfl, hvalid⟩ := hend h0
      exact .inl ⟨h0, rfl, hvalid⟩
    · refine .inr ⟨h0, h.transforms.done (d - 1) (by lia), ?_⟩
      rw [h.mid.owner, if_neg (Nat.lt_irrefl n)]
      rfl
  have htake : takeInput input d (c.setXform d x) = .ok (c.setXform d x) := by
    unfold takeInput
    refine if_neg fun hcon => ?_
    rw [NeedInput, hflushing] at hcon
    rcases hcon with hcon | hcon
    · cases hcon
    · cases hcon
  have hat : (X d).At rows (UInt32.ofNat (given X img d rows).length)
      ((c.setXform d x).xform d).hXform := by
    have hrows := hwaiting.at_k
    rw [passed_all (Nat.lt_of_lt_of_le hdm h.place.m_le)] at hrows
    rw [hself, hx]
    exact hrows
  obtain ⟨c', hconvert, hrun⟩ := convertRow_flush (X d) (rfl : tblOf X d = _) hflushing hat
  have hdone := hrun.of_setXform (by rw [hx])
  refine ⟨c', ?_, h.flush hdm hfed hdone hempty, hdone.steady⟩
  rw [runXform_of_ok (create_of_born hborn) hflush htake hempty, if_neg (by rw [hflushing]; decide)]
  exact hconvert

end Run

/-! ## A round -/

/-- How a round can end: the job makes a step, or the client has to give more, or is told
something, or all is done. -/
inductive Turn (X : Nat → RowXform σ rows) (n : Nat) (img : List UInt8) (input : Option Bytes)
    (fed : Nat) (got : List UInt8) (k i m d : Nat) (c : Core σ) :
    Except (Leave σ) (Core σ) → Prop
  | step {c' : Core σ} {fed' k' i' m' d' : Nat} (flow : Flow X n img c'.g fed' got k' i' m' d')
    (offers : Offers img input fed' c') (used : fed + c'.inUsed = fed' + c.inUsed)
    (calm : Calm c.ipResult → Calm c'.ipResult) (mask : c'.g.wResultMask = c.g.wResultMask)
    (work : work n k' i' m' d' = work n k i m d + 1)
    (ending : input ≠ none → d = 0 → d' = 0) : Turn X n img input fed got k i m d c (.ok c')
  | lacks {c' : Core σ} {fed' : Nat} (flow : Flow X n img c'.g fed' got k i m d)
    (offers : Offers img input fed' c') (used : fed + c'.inUsed = fed' + c.inUsed)
    (same : c'.ipResult = c.ipResult) (more : input ≠ none) :
    Turn X n img input fed got k i m d c (.error ⟨false, c'⟩)
  | told (bits : Has c.ipResult c.g.wResultMask) :
    Turn X n img input fed got k i m d c (.error ⟨false, c⟩)
  | done (all : d = n) : Turn X n img input fed got k i m d c (.error ⟨false, allDone c⟩)

section Turns

variable {fresh : Bytes} {input : Option Bytes} {c : Core σ}

theorem Offers.steady {c' : Core σ} (h : Offers img input fed c) (hsteady : Steady c c') :
    Offers img input fed c' := by
  cases input with
  | none => exact h
  | some src =>
    show slice (fun j => src (c'.inUsed + j)) 0 c'.inAvail = (img.drop fed).take c'.inAvail
      ∧ fed + c'.inAvail ≤ img.length
    rw [hsteady.inUsed, hsteady.inAvail]
    exact h

theorem Turn.of_steady {c' : Core σ} {k' i' m' d' : Nat}
    (flow : Flow X n img c'.g fed got k' i' m' d') (hsteady : Steady c c')
    (hoffers : Offers img input fed c) (hwork : work n k' i' m' d' = work n k i m d + 1)
    (hending : input ≠ none → d = 0 → d' = 0) : Turn X n img input fed got k i m d c (.ok c') :=
  .step flow (hoffers.steady hsteady) (by rw [hsteady.inUsed]) hsteady.calm hsteady.wResultMask hwork
    hending

theorem Turn.of_took {c₁ c₂ c' : Core σ} {fed' k' i' m' : Nat}
    (flow : Flow X n img c'.g fed' got k' i' m' 0) (hfirst : c₁ = { c with g := c₁.g })
    (hmask : c₁.g.wResultMask = c.g.wResultMask) (htook : Took fed fed' c₁ c₂) (hsteady : Steady c₂ c') (hoffers : Offers img input fed' c₂)
    (hwork : work n k' i' m' 0 = work n k i m 0 + 1) :
    Turn X n img input fed got k i m 0 c (.ok c') := by
  refine .step flow (hoffers.steady hsteady) ?_ (fun hcalm => hsteady.calm ?_) ?_ hwork
    fun _ _ => rfl
  · have hused := htook.inUsed
    rw [hfirst] at hused
    rw [hsteady.inUsed]
    exact hused
  · rw [htook.ipResult, hfirst]
    exact hcalm
  · have hkept : c₂.g.wResultMask = c₁.g.wResultMask := by rw [htook.g]
    exact hsteady.wResultMask.trans (hkept.trans hmask)

theorem Turn.of_lacks {c₁ c₂ : Core σ} {fed' : Nat} (flow : Flow X n img c₂.g fed' got k i m 0)
    (hfirst : c₁ = { c with g := c₁.g }) (htook : Took fed fed' c₁ c₂)
    (hoffers : Offers img input fed' c₂) (hmore : input ≠ none) :
    Turn X n img input fed got k i m 0 c (.error ⟨false, c₂⟩) := by
  refine .lacks flow hoffers ?_ ?_ hmore
  · have hused := htook.inUsed
    rw [hfirst] at hused
    exact hused
  · rw [htook.ipResult, hfirst]

variable (fresh) in
theorem Flow.parsing (h : Flow X n img c.g fed got k i 0 d) :
    ∃ c₁, create (tblOf X) fresh 0 c = .ok c₁ ∧ Flow X n img c₁.g fed got k i 0 d
      ∧ (c₁.xform 0).eState = .parsingHeader ∧ c₁ = { c with g := c₁.g }
      ∧ c₁.g.gbOut = c.g.gbOut ∧ c₁.g.wResultMask = c.g.wResultMask := by
  cases h.head with
  | unborn _ hstate => exact h.made hstate
  | parsing _ hstate =>
    refine ⟨c, create_of_born ?_, h, hstate, rfl, rfl, rfl⟩
    rw [Core.xform, hstate]
    decide
  | converting hm => exact absurd hm (Nat.lt_irrefl 0)

theorem Took.gbOut {fed' : Nat} {c' : Core σ} (h : Took fed fed' c c') :
    c'.g.gbOut = c.g.gbOut := by rw [h.g]

theorem Took.xform {fed' : Nat} {c' : Core σ} (h : Took fed fed' c c') (j : Nat) :
    c'.xform j = c.xform j := by rw [Core.xform, h.g, Core.xform]

theorem Flow.turnHeader (h : Flow X n img c.g fed got k i 0 d) (hoffers : Offers img input fed c)
    (hempty : c.g.gbOut.dwValidLen = 0) :
    Turn X n img input fed got k i 0 d c (runXform (tblOf X) fresh input 0 c) := by
  obtain ⟨rfl, -, rfl⟩ := h.place.before
  obtain ⟨c₁, hcreate, hflow, hstate, hfirst, hout, hmask⟩ := h.parsing fresh
  have hborn : (c₁.xform 0).eState ≠ .nonexistent := by
    rw [hstate]
    decide
  have hflush : enterFlushing input 0 c₁ = c₁ := by
    refine if_neg fun hcon => ?_
    rw [hstate] at hcon
    exact absurd hcon.1 (by decide)
  have hoffers₁ : Offers img input fed c₁ := by
    rw [hfirst]
    exact hoffers
  obtain ⟨c₂, fed', hflow₂, hoffers₂, htook, htake⟩ := hflow.gets hborn (.inl hstate) hoffers₁
  rcases htake with ⟨htake, hmore⟩ | ⟨htake, -⟩
  · rw [runXform_of_error hcreate hflush htake]
    exact Turn.of_lacks hflow₂ hfirst htook hoffers₂ hmore
  · have hempty₂ : c₂.g.gbOut.dwValidLen = 0 := by
      rw [htook.gbOut, hout]
      exact hempty
    have hstate₂ : (c₂.xform 0).eState = .parsingHeader := by
      rw [htook.xform]
      exact hstate
    have hready : (X 0).Ready (c₂.xform 0).hXform := by
      cases hflow₂.head with
      | unborn _ hnew =>
        rw [Core.xform, hnew] at hstate₂
        cases hstate₂
      | parsing _ _ _ hready => exact hready
      | converting hm => exact absurd hm (Nat.lt_irrefl 0)
    obtain ⟨c', hparse, hrun⟩ := parseHeader_row fresh (X 0) (rfl : tblOf X 0 = _) hready
    rw [runXform_of_ok hcreate hflush htake hempty₂, if_pos hstate₂, hparse]
    exact Turn.of_took (hflow₂.headHeader hempty₂ hstate₂ hrun) hfirst hmask htook hrun.steady hoffers₂
      rfl

theorem HeadBuf.whole {b : GenBuf} {len : Nat} (h : HeadBuf X img b img.length k len)
    (himg : img.length = rows * (X 0).minIn) :
    (b.dwValidLen = 0 ∧ k = rows) ∨ (X 0).minIn ≤ b.dwValidLen := by
  have hvalid := h.validLen
  have hpos := (X 0).minIn_pos
  rcases Nat.lt_trichotomy k rows with hlt | heq | hgt
  · have hle := Nat.mul_le_mul_right (X 0).minIn hlt
    rw [Nat.succ_mul] at hle
    exact .inr (by lia)
  · subst heq
    exact .inl ⟨by lia, rfl⟩
  · have hle := Nat.mul_le_mul_right (X 0).minIn hgt
    rw [Nat.succ_mul] at hle
    lia

theorem work_row (n k m : Nat) : work n (k + 1) 1 m 0 = work n k n m 0 + 1 := by
  rw [work, work, if_neg (Nat.succ_ne_zero k), Nat.add_sub_cancel]
  by_cases h0 : k = 0
  · subst h0
    rw [if_pos rfl, Nat.mul_zero]
    lia
  · obtain ⟨j, rfl⟩ := Nat.exists_eq_succ_of_ne_zero h0
    rw [if_neg h0, Nat.succ_sub_one, Nat.mul_succ]
    lia

theorem Flow.turnRow (h : Flow X n img c.g fed got k n m 0) (hchain : Chained X n) (hm : 0 < m)
    (himg : img.length = rows * (X 0).minIn) (hoffers : Offers img input fed c)
    (hempty : c.g.gbOut.dwValidLen = 0) :
    Turn X n img input fed got k n m 0 c (runXform (tblOf X) fresh input 0 c) := by
  have hn := h.place.i_pos
  have hwaiting := h.transforms.waiting 0 (Nat.le_refl 0) hm
  have hstate : (c.xform 0).eState = .converting := hwaiting.state
  have hborn : (c.xform 0).eState ≠ .nonexistent := by
    rw [hstate]
    decide
  have hminIn : (c.xform 0).dwMinInBufLen = (X 0).minIn := hwaiting.minIn
  have hbuf := h.headBuf hborn
  by_cases hend : input = none ∧ c.g.gbIn.dwValidLen = 0
  · -- there will be no more rows
    obtain ⟨rfl, hvalid⟩ := hend
    have hfed : fed = img.length := hoffers
    subst hfed
    have hk : k = rows := by
      rcases hbuf.whole himg with ⟨-, hk⟩ | hle
      · exact hk
      · have := (X 0).minIn_pos
        lia
    subst hk
    obtain ⟨c', hrun, hflow, hsteady⟩ := h.runFlush fresh none hm rfl
      (fun _ => ⟨rfl, hvalid⟩) hempty
    rw [hrun]
    exact Turn.of_steady hflow hsteady hoffers rfl fun hne => absurd rfl hne
  · have hflush : enterFlushing input 0 c = c := by
      refine if_neg fun hcon => ?_
      rcases hcon.2 with ⟨-, hnone, hvalid⟩ | ⟨hne, -⟩
      · exact hend ⟨Option.isNone_iff_eq_none.mp hnone, hvalid⟩
      · exact hne rfl
    obtain ⟨c₂, fed', hflow, hoffers₂, htook, htake⟩ := h.gets hborn (.inr hstate) hoffers
    rcases htake with ⟨htake, hmore⟩ | ⟨htake, henough⟩
    · rw [runXform_of_error (create_of_born hborn) hflush htake]
      exact Turn.of_lacks hflow rfl htook hoffers₂ hmore
    · have hempty₂ : c₂.g.gbOut.dwValidLen = 0 := by
        rw [htook.gbOut]
        exact hempty
      have hwaiting₂ := hflow.transforms.waiting 0 (Nat.le_refl 0) hm
      have hstate₂ : (c₂.xform 0).eState = .converting := hwaiting₂.state
      have hbuf₂ := hflow.headBuf (by rw [hstate₂]; decide)
      rw [htook.xform, hminIn] at hbuf₂
      rw [hminIn] at henough
      have hvalid : (X 0).minIn ≤ c₂.g.gbIn.dwValidLen := by
        rcases henough with ⟨rfl, rfl⟩ | hle
        · have hfed : fed' = img.length := hoffers₂
          subst hfed
          rcases hbuf₂.whole himg with ⟨hzero, -⟩ | hle
          · exact absurd ⟨rfl, hzero⟩ hend
          · exact hle
        · exact hle
      have hk : k < rows := by
        have hend := hbuf₂.validLen
        have hle := hflow.place.fed_le
        have hpos := (X 0).minIn_pos
        by_contra hcon
        have hmul := Nat.mul_le_mul_right (X 0).minIn (Nat.le_of_not_lt hcon)
        lia
      have hrow : (X 0).f (slice (inputOf 0 c₂) 0 (X 0).minIn) = stage X 1 (rowOf X img k) := by
        have hslice : slice (inputOf 0 c₂) 0 (X 0).minIn = rowOf X img k := by
          rw [← hbuf₂.row hvalid, inputOf, if_pos rfl]
          exact slice_congr fun j _ => by rw [Nat.zero_add]
        have hself : (rowOf X img k).take (X 0).minIn = rowOf X img k := by
          rw [rowOf, List.take_take, Nat.min_self]
        rw [hslice, stage, stage, hself]
      have hat := hwaiting₂.at_k
      rw [passed_all hn] at hat
      have hhas : HasRow (X 0) 0 k (UInt32.ofNat (given X img 0 k).length) c₂ :=
        { state := hstate₂
          at_k := hat
          inLen := by
            rw [inputLen, if_pos rfl]
            exact hvalid
          outLen := hflow.room hm
          owner := fun _ => by rw [hflow.mid.owner, if_neg (Nat.lt_irrefl n)]
          empty := fun _ => hempty₂
          next := fun hne => by
            rw [hflow.xfCount] at hne
            rw [hrow]
            exact stage_ne_nil hchain (rowOf_length himg hk) (by lia) }
      obtain ⟨c', hconvert, hrun⟩ := convertRow_row (X 0) (rfl : tblOf X 0 = _) hhas
      rw [hrow] at hrun
      rw [runXform_of_ok (create_of_born hborn) hflush htake hempty₂,
        if_neg (by rw [hstate₂]; decide), hconvert]
      exact Turn.of_took (hflow.headRow hm himg hempty₂ hvalid
        (stage_le hchain (rowOf_length himg hk) hn) hrun) rfl rfl htook hrun.steady hoffers₂
        (work_row n k m)

theorem Place.reached (h : Place rows n img fed k i m d) (hk : k ≠ 0) : i ≤ m := by
  by_cases hone : k = 1
  · exact (h.first hone).1
  · have := h.later (by lia)
    have := h.i_le
    lia

def Stranded (n m d : Nat) : Prop := 0 < d ∧ d = m ∧ d < n

theorem Place.not_stranded (h : Place rows n img fed k i m d)
    (hrows : 0 < rows ∨ n = 1) : ¬ Stranded n m d := by
  rintro ⟨hpos, rfl, hlt⟩
  obtain ⟨rfl, rfl, -⟩ := h.ending hpos
  rcases hrows with hrows | hone
  · have := h.reached (Nat.ne_of_gt hrows)
    omega
  · omega

variable (fresh input) in
/-- **A round.** -/
theorem Flow.turn (h : Flow X n img c.g fed got k i m d) (hchain : Chained X n)
    (himg : img.length = rows * (X 0).minIn) (hmore : ¬ Stranded n m d)
    (hoffers : Offers img input fed c) (hempty : c.g.gbOut.dwValidLen = 0) :
    Turn X n img input fed got k i m d c (process (tblOf X) fresh input c) := by
  rw [process]
  by_cases hbits : Has c.ipResult c.g.wResultMask
  · rw [if_pos hbits]
    exact .told hbits
  rw [if_neg hbits, h.selected]
  by_cases hi : i < n
  · -- the row in flight is taken on
    rw [if_pos hi]
    obtain ⟨hd, hk, -⟩ := h.inFlight hi
    rcases Nat.lt_or_ge i m with hm | hm
    · obtain ⟨c', hrun, hflow, hsteady⟩ := h.runRow fresh input hchain himg hi hm
        hempty
      dsimp only
      rw [hrun]
      refine Turn.of_steady hflow hsteady hoffers ?_ fun _ hd => hd
      rw [work, work, if_neg hk, if_neg hk]
      lia
    · obtain rfl : i = m := Nat.le_antisymm (h.place.reached hk) hm
      obtain ⟨c', hrun, hflow, hsteady⟩ := h.runHeader fresh input hchain himg
        hi hempty
      dsimp only
      rw [hrun]
      refine Turn.of_steady hflow hsteady hoffers ?_ fun _ hd => hd
      rw [work, work]
      lia
  obtain rfl : i = n := Nat.le_antisymm h.place.i_le (Nat.le_of_not_lt hi)
  rw [if_neg hi]
  by_cases hd : d < i
  · rw [if_pos hd]
    by_cases h0 : d = 0
    · subst h0
      by_cases hm : m = 0
      · subst hm
        exact h.turnHeader hoffers hempty
      · exact h.turnRow hchain (Nat.pos_of_ne_zero hm) himg hoffers hempty
    · -- the transforms before are done
      obtain ⟨rfl, -, hfed⟩ := h.place.ending (Nat.pos_of_ne_zero h0)
      have hdm : d < m := by
        refine Nat.lt_of_le_of_ne h.place.d_le fun heq => hmore ⟨Nat.pos_of_ne_zero h0, heq, hd⟩
      obtain ⟨c', hrun, hflow, hsteady⟩ := h.runFlush fresh input hdm hfed
        (fun hcon => absurd hcon h0) hempty
      dsimp only
      rw [hrun]
      exact Turn.of_steady hflow hsteady hoffers rfl fun _ hcon => absurd hcon h0
  · rw [if_neg hd]
    have hdm := h.place.d_le
    have hmn := h.place.m_le
    exact .done (by lia)

variable (fresh input) in
theorem Flow.strands (h : Flow X n img c.g fed got k n d d) (hchain : Chained X n) (hpos : 0 < d)
    (hd : d < n) (hbits : ¬ Has c.ipResult c.g.wResultMask) :
    ∃ c', process (tblOf X) fresh input c = .error ⟨true, c'⟩ := by
  have hnew := h.transforms.unborn d (Nat.le_refl d) hpos hd
  have hprior : (c.xform (d - 1)).eState = .done := h.transforms.done (d - 1) (by omega)
  obtain ⟨y, -, hcreate⟩ := create_row fresh (X d) (rfl : tblOf X d = _) hnew
    (.inr (by rw [hprior]; trivial)) (h.takes hchain hpos hd)
  dsimp only at hcreate
  rw [if_neg (Nat.ne_of_gt hpos), if_neg (Nat.ne_of_gt hpos)] at hcreate
  generalize hx : ({ c.xform d with
    eState := .parsingHeader, hXform := y, inTraits := newTraits c.g d, dwMinInBufLen := 0 }
    : XformInfo σ) = x at hcreate
  have hstate : ((c.setXform d x).xform d).eState = .parsingHeader := by
    rw [setXform_xform, ← hx]
  have hflush : enterFlushing input d (c.setXform d x) = c.setXform d x := by
    refine if_neg fun hcon => ?_
    rw [hstate] at hcon
    exact absurd hcon.1 (by decide)
  refine ⟨c.setXform d x, ?_⟩
  rw [process, if_neg hbits, h.selected, if_neg (Nat.lt_irrefl n), if_pos hd]
  refine runXform_of_error hcreate hflush ?_
  unfold takeInput
  rw [if_pos (.inl hstate), if_pos (Nat.ne_of_gt hpos), insure, if_neg]
  · rfl
  · show ¬ (c.g.iOwner.isSome ∧ _)
    rw [h.mid.owner, if_neg (Nat.lt_irrefl n)]
    exact fun hcon => absurd hcon.1 (by decide)

end Turns

end Hplip.Ip
