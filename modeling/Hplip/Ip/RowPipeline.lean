import Hplip.Ip.RowXform

/-!
# A pipeline of row transforms (ipmain.c)

One pair of mid-buffers serves all the transforms of a list: a row is in flight between two of
them, or none is. The rows behind it are converted by all transforms, those before it by none.
-/

namespace Hplip.Ip

open Loop

variable {σ : Type} {rows : Nat}

/-! ## Rows -/

section Rows

variable (X : Nat → RowXform σ rows) (n : Nat) (img : List UInt8)

def tblOf (i : Nat) : XformTbl σ := (X i).toXformTbl

/-- What transform `i` is given for a row of the first one. -/
def stage : Nat → List UInt8 → List UInt8
  | 0, row => row
  | i + 1, row => (X i).f ((stage i row).take (X i).minIn)

/-- Row `k` of the image. -/
def rowOf (k : Nat) : List UInt8 := (img.drop (k * (X 0).minIn)).take (X 0).minIn

/-- What transform `j` gives for the first `k` rows. -/
def given (j k : Nat) : List UInt8 := (List.range k).flatMap fun t => stage X (j + 1) (rowOf X img t)

/-- Each transform gives the next one enough, and images that it takes; the resolution may be
overridden. -/
structure Chained : Prop where
  enough : ∀ i, i + 1 < n → ∀ row, row.length = (X i).minIn →
    (X (i + 1)).minIn ≤ ((X i).f row).length
  traits : ∀ i, i + 1 < n → ∀ traits h v, (X i).Gives traits →
    (X (i + 1)).Takes { traits with lHorizDPI := h, lVertDPI := v }

end Rows

section Lemmas

variable {X : Nat → RowXform σ rows} {n : Nat} {img : List UInt8}

theorem rowOf_length (himg : img.length = rows * (X 0).minIn) {k : Nat} (hk : k < rows) :
    (rowOf X img k).length = (X 0).minIn := by
  have hend : (k + 1) * (X 0).minIn ≤ rows * (X 0).minIn := Nat.mul_le_mul_right _ hk
  rw [Nat.succ_mul] at hend
  rw [rowOf, List.length_take, List.length_drop, himg]
  lia

theorem stage_length (hchain : Chained X n) {row : List UInt8} (hrow : row.length = (X 0).minIn)
    {i : Nat} (hi : i < n) : (X i).minIn ≤ (stage X i row).length := by
  induction i with
  | zero => exact Nat.le_of_eq hrow.symm
  | succ i ih =>
    have hle := ih (Nat.lt_of_succ_lt hi)
    exact hchain.enough i hi _ (List.length_take_of_le hle)

theorem stage_ne_nil (hchain : Chained X n) {row : List UInt8} (hrow : row.length = (X 0).minIn)
    {i : Nat} (hi : i < n) : stage X i row ≠ [] := by
  intro hnil
  have hle := stage_length hchain hrow hi
  rw [hnil] at hle
  exact absurd (X i).minIn_pos (Nat.not_lt.mpr hle)

theorem stage_le (hchain : Chained X n) {row : List UInt8} (hrow : row.length = (X 0).minIn)
    {i : Nat} (hi : i < n) : (stage X (i + 1) row).length ≤ (X i).minOut :=
  (X i).length_le _ (List.length_take_of_le (stage_length hchain hrow hi))

theorem given_succ (j k : Nat) :
    given X img j (k + 1) = given X img j k ++ stage X (j + 1) (rowOf X img k) := by
  rw [given, given, List.range_succ, List.flatMap_append, List.flatMap_singleton]

theorem take_slice (m : Nat → UInt8) (i : Nat) {k n : Nat} (h : k ≤ n) :
    (slice m i n).take k = slice m i k := by
  have := take_drop_slice m (i := i) (j := 0) (k := k) (n := n) (by omega)
  rwa [List.drop_zero, Nat.add_zero] at this

end Lemmas

/-! ## The state between two rounds -/

section State

variable (X : Nat → RowXform σ rows) (n : Nat) (img : List UInt8)

/-- How many rows transform `j` has converted when the first one has converted `k` and the last
of them is in front of transform `i`. -/
def passed (k i j : Nat) : Nat := if j < i then k else k - 1

/-- A transform that has converted `k` rows and wants another one. -/
structure Waiting (j k : Nat) (x : XformInfo σ) : Prop where
  state : x.eState = .converting
  minIn : x.dwMinInBufLen = (X j).minIn
  at_k : (X j).At k (UInt32.ofNat (given X img j k).length) x.hXform

/-- The first `m` transforms are past their headers, the first `d` of them done. -/
structure Transforms (xf : Nat → XformInfo σ) (k i m d : Nat) : Prop where
  done : ∀ j < d, (xf j).eState = .done
  waiting : ∀ j, d ≤ j → j < m → Waiting X img j (passed k i j) (xf j)
  gives : ∀ j < m, (X j).Gives (xf j).outTraits
  unborn : ∀ j, m ≤ j → 0 < j → j < n → (xf j).eState = .nonexistent

structure HeadBuf (b : GenBuf) (fed k len : Nat) : Prop where
  bytes : slice b.pbBuf b.dwValidStart b.dwValidLen = (img.take fed).drop (k * (X 0).minIn)
  validLen : k * (X 0).minIn + b.dwValidLen = fed
  fits : b.dwValidStart + b.dwValidLen ≤ b.dwBufLen
  room : len ≤ b.dwBufLen
  filePos : b.dwFilePos = UInt32.ofNat (k * (X 0).minIn)

inductive Head (g : Inst σ) (fed k m d : Nat) : Prop
  | unborn (hm : m = 0) (hstate : (g.xfArray 0).eState = .nonexistent) (hfed : fed = 0)
    (htakes : (X 0).Takes (g.xfArray 0).inTraits) : Head g fed k m d
  | parsing (hm : m = 0) (hstate : (g.xfArray 0).eState = .parsingHeader)
    (hminIn : (g.xfArray 0).dwMinInBufLen = 1) (hready : (X 0).Ready (g.xfArray 0).hXform)
    (hbuf : HeadBuf X img g.gbIn fed 0 1) : Head g fed k m d
  | converting (hm : 0 < m) (hbuf : d = 0 → HeadBuf X img g.gbIn fed k (X 0).minIn) :
    Head g fed k m d

/-- The mid-buffers: row `k - 1` is in front of transform `i`, or nothing is in flight. -/
structure Mid (g : Inst σ) (k i m : Nat) : Prop where
  owner : g.iOwner = if i < n then some i else none
  row : i < n → slice g.pbMidInBuf 0 g.dwMidValidLen = stage X i (rowOf X img (k - 1))
    ∧ g.dwMidValidLen ≤ g.dwMidLen
  fits : ∀ j < m, j + 1 < n → (X j).minOut ≤ g.dwMidLen

structure Tail (b : GenBuf) (got : List UInt8) (k i m : Nat) : Prop where
  bytes : got ++ slice b.pbBuf b.dwValidStart b.dwValidLen = given X img (n - 1) (passed k i (n - 1))
  filePos : b.dwValidLen ≠ 0 → b.dwFilePos = UInt32.ofNat got.length
  fits : m = n → (X (n - 1)).minOut ≤ b.dwBufLen

variable (rows) in
/-- Where a job can be: `k` rows are in, the last of them in front of transform `i`, `m`
transforms past their headers and `d` of them done. -/
structure Place (fed k i m d : Nat) : Prop where
  i_pos : 0 < i
  i_le : i ≤ n
  k_le : k ≤ rows
  d_le : d ≤ m
  m_le : m ≤ n
  fed_le : fed ≤ img.length
  start : k = 0 → i = n ∧ m ≤ 1
  first : k = 1 → i ≤ m ∧ m ≤ i + 1
  later : 1 < k → m = n
  ending : 0 < d → k = rows ∧ i = n ∧ fed = img.length

structure Flow (g : Inst σ) (fed : Nat) (got : List UInt8) (k i m d : Nat) : Prop where
  place : Place rows n img fed k i m d
  xfCount : g.xfCount = n
  transforms : Transforms X n img g.xfArray k i m d
  head : Head X img g fed k m d
  mid : Mid X n img g k i m
  tail : Tail X n img g.gbOut got k i m
  lInRows : g.lInRows = k
  lOutRows : g.lOutRows = passed k i (n - 1)
  pendingInsert : g.pendingInsert = false
  mask : g.wResultMask &&& permanentResults = permanentResults

def work (k i m d : Nat) : Nat := (if k = 0 then 0 else n * (k - 1) + i) + m + d

end State

/-! ## What the rounds do -/

section Steps

variable {X : Nat → RowXform σ rows} {n : Nat} {img : List UInt8} {c c' : Core σ} {fresh : Bytes}
  {fed k i m d : Nat} {got : List UInt8}

theorem passed_self (k i : Nat) : passed k i i = k - 1 := if_neg (Nat.lt_irrefl i)

theorem passed_succ (k i : Nat) : passed k (i + 1) i = k := if_pos (Nat.lt_succ_self i)

theorem passed_of_ne {k i j : Nat} (h : j ≠ i) : passed k (i + 1) j = passed k i j := by
  rw [passed, passed]
  by_cases hlt : j < i
  · rw [if_pos hlt, if_pos (Nat.lt_succ_of_lt hlt)]
  · rw [if_neg hlt, if_neg (by omega)]

theorem passed_all {k j : Nat} (h : j < n) : passed k n j = k := if_pos h

theorem HeaderRead.of_setXform {Y : RowXform σ rows} {x : XformInfo σ}
    (h : HeaderRead Y fresh i (c.setXform i x) c') : HeaderRead Y fresh i c c' where
  steady := ⟨h.steady.xfCount, h.steady.pendingInsert, h.steady.wResultMask, h.steady.inAvail,
    h.steady.inUsed, h.steady.calm⟩
  state := h.state
  minIn := h.minIn
  start := h.start
  gives := h.gives
  others := fun j hj => (h.others j hj).trans (setXform_xform_of_ne _ _ hj)
  iOwner := h.iOwner
  lInRows := h.lInRows
  lOutRows := h.lOutRows
  gbIn := h.gbIn
  midValidLen := h.midValidLen
  mid := h.mid
  midLen := h.midLen
  midFits := h.midFits
  gbOut := h.gbOut
  gbOutFits := h.gbOutFits

theorem waiting_zero {j : Nat} {x : XformInfo σ} (hstate : x.eState = .converting)
    (hminIn : x.dwMinInBufLen = (X j).minIn) (hstart : (X j).At 0 0 x.hXform) :
    Waiting X img j 0 x := ⟨hstate, hminIn, hstart⟩

theorem Transforms.afterHeader {xf xf' : Nat → XformInfo σ} (h : Transforms X n img xf k i m d)
    (hd : d ≤ m) (hothers : ∀ j, j ≠ m → xf' j = xf j)
    (hwaiting : Waiting X img m (passed k i m) (xf' m)) (hgives : (X m).Gives (xf' m).outTraits) :
    Transforms X n img xf' k i (m + 1) d where
  done := fun j hj => by
    rw [hothers j (by omega)]
    exact h.done j hj
  waiting := fun j hdj hj => by
    by_cases hm : j = m
    · subst hm
      exact hwaiting
    · rw [hothers j hm]
      exact h.waiting j hdj (by omega)
  gives := fun j hj => by
    by_cases hm : j = m
    · subst hm
      exact hgives
    · rw [hothers j hm]
      exact h.gives j (by omega)
  unborn := fun j hj h0 hn => by
    rw [hothers j (by omega)]
    exact h.unborn j (by omega) h0 hn

theorem Mid.afterHeader {Y : RowXform σ rows} (h : Mid X n img c.g k i m) (hcount : c.g.xfCount = n)
    (hrun : HeaderRead Y fresh m c c') (hY : Y.minOut = (X m).minOut) :
    Mid X n img c'.g k i (m + 1) where
  owner := hrun.iOwner.trans h.owner
  row := fun hi => by
    obtain ⟨hrow, hle⟩ := h.row hi
    rw [hrun.midValidLen, hrun.mid _ hle]
    exact ⟨hrow, Nat.le_trans hle hrun.midLen⟩
  fits := fun j hj hjn => by
    by_cases hm : j = m
    · subst hm
      rw [← hY]
      exact hrun.midFits (by lia)
    · exact Nat.le_trans (h.fits j (by lia) hjn) hrun.midLen

theorem Tail.afterHeader {Y : RowXform σ rows} (h : Tail X n img c.g.gbOut got k i m)
    (hcount : c.g.xfCount = n) (hn : 0 < n) (hempty : c.g.gbOut.dwValidLen = 0)
    (hrun : HeaderRead Y fresh m c c') (hY : Y.minOut = (X m).minOut) :
    Tail X n img c'.g.gbOut got k i (m + 1) := by
  by_cases hm : m = n - 1
  · obtain ⟨hzero, hfits⟩ := hrun.gbOutFits (by lia)
    refine ⟨?_, fun hne => absurd hzero hne, fun _ => ?_⟩
    · have hbytes := h.bytes
      rw [hempty] at hbytes
      rw [hzero]
      exact hbytes
    · rw [← hm, ← hY]
      exact hfits
  · rw [hrun.gbOut (by lia)]
    exact ⟨h.bytes, h.filePos, fun heq => absurd heq (by lia)⟩

theorem Flow.afterHeader (h : Flow X n img c.g fed got k i m d) (hi : i < n) (hm : m = i)
    (hempty : c.g.gbOut.dwValidLen = 0) (hrun : HeaderRead (X i) fresh i c c') :
    Flow X n img c'.g fed got k i (i + 1) d := by
  obtain ⟨hplace, hcount, htransforms, hhead, hmid, htail, hlIn, hlOut, hpending, hmask⟩ := h
  have hi0 := hplace.i_pos
  subst hm
  have hk : k = 1 := by
    have h0 : k ≠ 0 := fun h0 => absurd (hplace.start h0).1 (Nat.ne_of_lt hi)
    have h1 : ¬ 1 < k := fun h1 => absurd (hplace.later h1) (Nat.ne_of_lt hi)
    lia
  have hd : d = 0 := by
    by_contra hne
    exact absurd (hplace.ending (Nat.pos_of_ne_zero hne)).2.1 (Nat.ne_of_lt hi)
  subst hk
  subst hd
  exact
    { place := { hplace with
        d_le := Nat.zero_le _
        m_le := hi
        start := fun h0 => absurd h0 (by decide)
        first := fun _ => ⟨Nat.le_succ _, Nat.le_refl _⟩
        later := fun h1 => absurd h1 (Nat.lt_irrefl 1) }
      xfCount := hrun.steady.xfCount.trans hcount
      transforms := by
        refine htransforms.afterHeader (Nat.zero_le _) hrun.others ?_ hrun.gives
        rw [passed_self]
        exact waiting_zero hrun.state hrun.minIn hrun.start
      head := by
        cases hhead with
        | unborn h0 => exact absurd h0 (Nat.ne_of_gt hi0)
        | parsing h0 => exact absurd h0 (Nat.ne_of_gt hi0)
        | converting _ hbuf =>
          refine .converting (Nat.succ_pos _) fun h0 => ?_
          rw [hrun.gbIn, if_neg (Nat.ne_of_gt hi0)]
          exact hbuf h0
      mid := hmid.afterHeader hcount hrun rfl
      tail := htail.afterHeader hcount (by lia) hempty hrun rfl
      lInRows := hrun.lInRows.trans hlIn
      lOutRows := hrun.lOutRows.trans hlOut
      pendingInsert := hrun.steady.pendingInsert.trans hpending
      mask := hrun.steady.wResultMask ▸ hmask }

theorem Waiting.next {Y : RowXform σ rows} {p : UInt32} {row : List UInt8}
    (h : Waiting X img i k (c.xform i)) (hX : Y = X i)
    (hp : p = UInt32.ofNat (given X img i k).length)
    (hrow : row = stage X (i + 1) (rowOf X img k)) (hrun : RowRun Y i k p row c c') :
    Waiting X img i (k + 1) (c'.xform i) := by
  subst hX
  refine ⟨hrun.state, hrun.minIn.trans h.minIn, ?_⟩
  have hnext := hrun.next
  rw [hp, hrow, ← UInt32.ofNat_add, ← List.length_append, ← given_succ] at hnext
  exact hnext

theorem Transforms.afterRow {xf xf' : Nat → XformInfo σ} {k' i' : Nat}
    (h : Transforms X n img xf k i m d) {j₀ : Nat} (hd : d ≤ j₀)
    (hothers : ∀ j, j ≠ j₀ → xf' j = xf j) (hpassed : ∀ j < m, j ≠ j₀ → passed k' i' j = passed k i j)
    (hlt : j₀ < m) (hwaiting : Waiting X img j₀ (passed k' i' j₀) (xf' j₀))
    (hgives : (xf' j₀).outTraits = (xf j₀).outTraits) :
    Transforms X n img xf' k' i' m d where
  done := fun j hj => by
    rw [hothers j (by omega)]
    exact h.done j hj
  waiting := fun j hdj hj => by
    by_cases hi : j = j₀
    · subst hi
      exact hwaiting
    · rw [hothers j hi, hpassed j hj hi]
      exact h.waiting j hdj hj
  gives := fun j hj => by
    by_cases hi : j = j₀
    · subst hi
      rw [hgives]
      exact h.gives j hj
    · rw [hothers j hi]
      exact h.gives j hj
  unborn := fun j hj h0 hn => by
    rw [hothers j (by omega)]
    exact h.unborn j hj h0 hn

theorem Tail.afterRow {Y : RowXform σ rows} {k' i' j₀ : Nat} {p : UInt32} {row : List UInt8}
    (h : Tail X n img c.g.gbOut got k i m) (hcount : c.g.xfCount = n)
    (hempty : c.g.gbOut.dwValidLen = 0) (hrun : RowRun Y j₀ (passed k i j₀) p row c c')
    (hp : p = UInt32.ofNat (given X img j₀ (passed k i j₀)).length)
    (hrow : row = stage X (j₀ + 1) (rowOf X img (passed k i j₀)))
    (hother : n - 1 ≠ j₀ → passed k' i' (n - 1) = passed k i (n - 1))
    (hself : passed k' i' j₀ = passed k i j₀ + 1) :
    Tail X n img c'.g.gbOut got k' i' m := by
  have hgot : got = given X img (n - 1) (passed k i (n - 1)) := by
    have hbytes := h.bytes
    rw [hempty, slice_zero, List.append_nil] at hbytes
    exact hbytes
  by_cases hlast : j₀ = n - 1
  · obtain ⟨-, hlen, hvalid, hbytes, hpos⟩ := hrun.given (by lia)
    subst hlast
    refine ⟨?_, fun hne => ?_, fun hm => ?_⟩
    · rw [hvalid, hbytes, hself, given_succ, ← hgot, hrow]
    · rw [hvalid] at hne
      rw [hpos fun hnil => hne (by rw [hnil]; rfl), hp, ← hgot]
    · rw [hlen]
      exact h.fits hm
  · obtain ⟨-, -, -, hout⟩ := hrun.handed (by lia)
    rw [hout]
    refine ⟨?_, h.filePos, h.fits⟩
    rw [hother (Ne.symm hlast)]
    exact h.bytes

theorem Mid.afterRow {Y : RowXform σ rows} {k' j₀ q : Nat} {p : UInt32}
    {row : List UInt8} (h : Mid X n img c.g k i m) (hcount : c.g.xfCount = n) (hj₀ : j₀ < n)
    (hrun : RowRun Y j₀ q p row c c') (hrow : row = stage X (j₀ + 1) (rowOf X img (k' - 1)))
    (hlen : j₀ ≠ n - 1 → row.length ≤ c.g.dwMidLen) :
    Mid X n img c'.g k' (j₀ + 1) m := by
  have hfits : ∀ j < m, j + 1 < n → (X j).minOut ≤ c'.g.dwMidLen := by
    rw [hrun.midLen]
    exact h.fits
  by_cases hlast : j₀ = n - 1
  · obtain ⟨howner, -⟩ := hrun.given (by lia)
    refine ⟨?_, fun hlt => absurd hlt (by lia), hfits⟩
    rw [howner, if_neg (by lia)]
  · obtain ⟨howner, hvalid, hbuf, -⟩ := hrun.handed (by lia)
    refine ⟨?_, fun _ => ⟨?_, ?_⟩, hfits⟩
    · rw [howner, if_pos (by lia)]
    · rw [hvalid, hbuf, hrow]
    · rw [hvalid, hrun.midLen]
      exact hlen hlast

theorem Flow.afterRow (h : Flow X n img c.g fed got k i m d) (hi : i < n) (hm : i < m)
    (hempty : c.g.gbOut.dwValidLen = 0)
    (hlen : (stage X (i + 1) (rowOf X img (k - 1))).length ≤ (X i).minOut)
    (hrun : RowRun (X i) i (passed k i i) (UInt32.ofNat (given X img i (passed k i i)).length)
      (stage X (i + 1) (rowOf X img (k - 1))) c c') :
    Flow X n img c'.g fed got k (i + 1) m d := by
  obtain ⟨hplace, hcount, htransforms, hhead, hmid, htail, hlIn, hlOut, hpending, hmask⟩ := h
  have hi0 := hplace.i_pos
  have hk : k ≠ 0 := fun h0 => absurd (hplace.start h0).1 (Nat.ne_of_lt hi)
  have hd : d = 0 := by
    by_contra hne
    exact absurd (hplace.ending (Nat.pos_of_ne_zero hne)).2.1 (Nat.ne_of_lt hi)
  subst hd
  have hone : passed k (i + 1) i = passed k i i + 1 := by
    rw [passed_succ, passed_self]
    lia
  exact
    { place := { hplace with
        i_pos := Nat.succ_pos i
        i_le := hi
        start := fun h0 => absurd h0 hk
        first := fun h1 => by
          have := hplace.first h1
          lia
        ending := fun h0 => absurd h0 (Nat.lt_irrefl 0) }
      xfCount := hrun.steady.xfCount.trans hcount
      transforms := by
        refine htransforms.afterRow (Nat.zero_le i) hrun.others (fun j _ hj => passed_of_ne hj) hm ?_
          hrun.outTraits
        rw [hone]
        refine Waiting.next (htransforms.waiting i (Nat.zero_le i) hm) rfl rfl ?_ hrun
        rw [passed_self]
      head := by
        cases hhead with
        | unborn h0 => lia
        | parsing h0 => lia
        | converting h0 hbuf =>
          refine .converting h0 fun hd => ?_
          rw [hrun.gbIn, if_neg (Nat.ne_of_gt hi0)]
          exact hbuf hd
      mid := hmid.afterRow hcount hi hrun rfl fun hne => Nat.le_trans hlen (hmid.fits i hm (by lia))
      tail := by
        refine htail.afterRow hcount hempty hrun rfl ?_ (fun hne => passed_of_ne hne) hone
        rw [passed_self]
      lInRows := by
        rw [hrun.lInRows, if_neg (Nat.ne_of_gt hi0), Int.add_zero, hlIn]
      lOutRows := by
        rw [hrun.lOutRows, hcount, hlOut]
        by_cases hlast : i = n - 1
        · rw [if_pos hlast, ← hlast, hone]
          rfl
        · rw [if_neg hlast, Int.add_zero, passed_of_ne (Ne.symm hlast)]
      pendingInsert := hrun.steady.pendingInsert.trans hpending
      mask := hrun.steady.wResultMask ▸ hmask }

end Steps

end Hplip.Ip
