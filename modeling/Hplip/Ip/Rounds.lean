import Hplip.Ip.Ipmain

/-!
# What a round of the main loop does (ipmain.c)

One lemma for each step of a round, with all that the step can do, so that what a round
keeps follows without looking into it again.
-/

namespace Hplip.Ip

open Loop

variable {σ : Type} {tbl : Nat → XformTbl σ} {fresh : Bytes} {input : Option Bytes}

/-! ## Small changes -/

@[simp] theorem setXform_gbIn (c : Core σ) (i : Nat) (x : XformInfo σ) :
    (c.setXform i x).g.gbIn = c.g.gbIn := rfl

@[simp] theorem setXform_gbOut (c : Core σ) (i : Nat) (x : XformInfo σ) :
    (c.setXform i x).g.gbOut = c.g.gbOut := rfl

@[simp] theorem setXform_log (c : Core σ) (i : Nat) (x : XformInfo σ) :
    (c.setXform i x).log = c.log := rfl

@[simp] theorem setXform_xform (c : Core σ) (i : Nat) (x : XformInfo σ) :
    (c.setXform i x).xform i = x := Function.update_self ..

theorem setXform_xform_of_ne (c : Core σ) {i j : Nat} (x : XformInfo σ) (h : j ≠ i) :
    (c.setXform i x).xform j = c.xform j := Function.update_of_ne h ..

@[simp] theorem setIn_gbIn (c : Core σ) (b : GenBuf) : (c.setIn b).g.gbIn = b := rfl

@[simp] theorem setIn_gbOut (c : Core σ) (b : GenBuf) : (c.setIn b).g.gbOut = c.g.gbOut := rfl

@[simp] theorem setIn_log (c : Core σ) (b : GenBuf) : (c.setIn b).log = c.log := rfl

@[simp] theorem setIn_xform (c : Core σ) (b : GenBuf) (i : Nat) :
    (c.setIn b).xform i = c.xform i := rfl

theorem leaves_insure {α : Type} {p : Prop} [Decidable p] {c : Core σ}
    {f : Unit → Except (Leave σ) α} {E : Leave σ → Prop} {Q : α → Prop} (hE : E ⟨true, c⟩)
    (hf : p → Leaves (f ()) E Q) : Leaves (insure p c >>= f) E Q := by
  unfold insure
  by_cases h : p
  · rw [if_pos h]
    exact hf h
  · rw [if_neg h]
    exact hE

/-! ## The preparations -/

theorem create_spec (tbl : Nat → XformTbl σ) (fresh : Bytes) (i : Nat) (c : Core σ) :
    Leaves (create tbl fresh i c) (fun e => e = ⟨true, c⟩) fun c' =>
      ((c.xform i).eState ≠ .nonexistent ∧ c' = c) ∨
      ((c.xform i).eState = .nonexistent ∧ ∃ x n, x.eState = .parsingHeader ∧
        c' = if i = 0 then (c.setXform i x).setIn ⟨fresh, n, 0, 0, 0⟩ else c.setXform i x) := by
  unfold create
  by_cases h : (c.xform i).eState = .nonexistent
  · rw [if_pos h]
    refine leaves_insure rfl fun _ => ?_
    dsimp only
    refine leaves_insure rfl fun _ => ?_
    refine leaves_insure rfl fun _ => ?_
    refine leaves_insure rfl fun _ => ?_
    refine leaves_insure rfl fun _ => ?_
    refine leaves_insure rfl fun _ => ?_
    exact .inr ⟨h, _, _, rfl, rfl⟩
  · rw [if_neg h]
    exact .inl ⟨h, rfl⟩

theorem enterFlushing_spec (input : Option Bytes) (i : Nat) (c : Core σ) :
    enterFlushing input i c = c ∨
      ((c.xform i).eState = .converting ∧
        enterFlushing input i c = c.setXform i { c.xform i with eState := .flushing }) := by
  unfold enterFlushing
  split
  · rename_i h
    exact .inr ⟨h.1, rfl⟩
  · exact .inl rfl

theorem takeInput_spec (input : Option Bytes) (i : Nat) (c : Core σ) :
    Leaves (takeInput input i c)
      (fun e => e = ⟨true, c⟩ ∨
        (i = 0 ∧ NeedInput c 0 ∧ ∃ src, input = some src ∧ e = ⟨false, fillInput src c⟩))
      fun c' => c' = c ∨
        (i = 0 ∧ NeedInput c 0 ∧ ∃ src, input = some src ∧ c' = fillInput src c) := by
  unfold takeInput
  by_cases hneed : NeedInput c i
  · rw [if_pos hneed]
    by_cases hi : i ≠ 0
    · rw [if_pos hi]
      exact leaves_insure (.inl rfl) fun _ => .inl rfl
    · rw [if_neg hi]
      obtain rfl : i = 0 := not_not.mp hi
      cases input with
      | none => exact .inl rfl
      | some src =>
        dsimp only
        split
        · exact .inr ⟨rfl, hneed, src, rfl, rfl⟩
        · exact .inr ⟨rfl, hneed, src, rfl, rfl⟩
  · rw [if_neg hneed]
    exact .inl rfl

/-! ## The calls -/

/-- A call of transform `i` that started from `c`. -/
structure Logged (i : Nat) (c : Core σ) (call : Call) (c' : Core σ) : Prop where
  log : c'.log = c.log ++ [call]
  index : call.iXform = i
  state : call.eState = (c.xform i).eState
  inAvail : call.inAvail = inputLen i c
  inBuf : ∀ buf, call.inBuf = some buf → (c.xform i).eState ≠ .flushing ∧ buf = inputOf i c

/-- What the steps around a call leave alone: the input, the calls that were made, and where
the output is. -/
structure Keeps (c c' : Core σ) : Prop where
  gbIn : c'.g.gbIn = c.g.gbIn
  log : c'.log = c.log
  inAvail : c'.inAvail = c.inAvail
  inUsed : c'.inUsed = c.inUsed
  iOwner : c'.g.iOwner = c.g.iOwner
  filePos : c'.g.gbOut.dwFilePos = c.g.gbOut.dwFilePos

theorem Keeps.refl (c : Core σ) : Keeps c c := ⟨rfl, rfl, rfl, rfl, rfl, rfl⟩

theorem Keeps.trans {c c' c'' : Core σ} (h : Keeps c c') (h' : Keeps c' c'') : Keeps c c'' :=
  ⟨h'.gbIn.trans h.gbIn, h'.log.trans h.log, h'.inAvail.trans h.inAvail,
    h'.inUsed.trans h.inUsed, h'.iOwner.trans h.iOwner, h'.filePos.trans h.filePos⟩

theorem keeps_setXform (c : Core σ) (i : Nat) (x : XformInfo σ) : Keeps c (c.setXform i x) :=
  ⟨rfl, rfl, rfl, rfl, rfl, rfl⟩

theorem keeps_setOutBuf (c : Core σ) (i : Nat) (buf : Bytes) : Keeps c (c.setOutBuf i buf) := by
  unfold Core.setOutBuf
  split <;> exact ⟨rfl, rfl, rfl, rfl, rfl, rfl⟩

theorem setOutBuf_xform (c : Core σ) (i j : Nat) (buf : Bytes) :
    (c.setOutBuf i buf).xform j = c.xform j := by
  unfold Core.setOutBuf
  split <;> rfl

theorem keeps_growMidBufs (fresh : Bytes) (n : Nat) (c : Core σ) : Keeps c (growMidBufs fresh n c) := by
  unfold growMidBufs
  split <;> exact ⟨rfl, rfl, rfl, rfl, rfl, rfl⟩

theorem growMidBufs_xform (fresh : Bytes) (n j : Nat) (c : Core σ) :
    (growMidBufs fresh n c).xform j = c.xform j := by
  unfold growMidBufs
  split <;> rfl

theorem keeps_headBits (result : UInt16) (c : Core σ) : Keeps c (headBits result c) := by
  unfold headBits
  dsimp only
  split <;> split <;> exact ⟨rfl, rfl, rfl, rfl, rfl, rfl⟩

theorem headBits_gbOut (result : UInt16) (c : Core σ) :
    (headBits result c).g.gbOut = c.g.gbOut := by
  unfold headBits
  dsimp only
  split <;> split <;> rfl

theorem headBits_xform (result : UInt16) (c : Core σ) (j : Nat) :
    (headBits result c).xform j = c.xform j := by
  unfold headBits
  dsimp only
  split <;> split <;> rfl

theorem handleBits_spec (tbl : Nat → XformTbl σ) (i : Nat) (result : UInt16) (c : Core σ) :
    Keeps c (handleBits tbl i result c) ∧ (handleBits tbl i result c).g.gbOut = c.g.gbOut ∧
      ∀ j, ((handleBits tbl i result c).xform j).eState = (c.xform j).eState := by
  unfold handleBits
  have hhead : Keeps c (if i = 0 then headBits result c else c) ∧
      (if i = 0 then headBits result c else c).g.gbOut = c.g.gbOut ∧
      ∀ j, (if i = 0 then headBits result c else c).xform j = c.xform j := by
    split
    · exact ⟨keeps_headBits result c, headBits_gbOut result c, headBits_xform result c⟩
    · exact ⟨Keeps.refl c, rfl, fun _ => rfl⟩
  obtain ⟨hkeeps, hgbOut, hxform⟩ := hhead
  generalize (if i = 0 then headBits result c else c) = d at hkeeps hgbOut hxform
  dsimp only
  split
  · exact ⟨hkeeps.trans ⟨rfl, rfl, rfl, rfl, rfl, rfl⟩, hgbOut, fun j => by rw [← hxform j]; rfl⟩
  split
  · refine ⟨hkeeps.trans (keeps_setXform ..), hgbOut, fun j => ?_⟩
    rw [← hxform j]
    rcases eq_or_ne j (i + 1) with rfl | hne
    · rw [setXform_xform]
    · rw [setXform_xform_of_ne _ _ hne]
  · exact ⟨hkeeps, hgbOut, fun j => by rw [hxform j]⟩

theorem nextState_spec (i : Nat) (result : UInt16) (c : Core σ) :
    Keeps c (nextState i result c) ∧ (nextState i result c).g.gbOut = c.g.gbOut ∧
      (∀ j, j ≠ i → (nextState i result c).xform j = c.xform j) ∧
      (((nextState i result c).xform i).eState = .done ∨
        ((c.xform i).eState ≠ .flushing ∧
          (((nextState i result c).xform i).eState = .converting ∨
            ((nextState i result c).xform i).eState = .convNotRfd)) ∨
        ((c.xform i).eState = .flushing ∧ ((nextState i result c).xform i).eState = .flushing)) := by
  unfold nextState selectCnvState
  split
  · refine ⟨keeps_setXform .., rfl, fun j hj => setXform_xform_of_ne _ _ hj, .inl ?_⟩
    rw [setXform_xform]
  split
  · rename_i hnot
    refine ⟨keeps_setXform .., rfl, fun j hj => setXform_xform_of_ne _ _ hj,
      .inr (.inl ⟨hnot, ?_⟩)⟩
    rw [setXform_xform]
    dsimp only
    split
    · exact .inl rfl
    · exact .inr rfl
  · rename_i hflushing
    have hflushing := not_not.mp hflushing
    exact ⟨Keeps.refl c, rfl, fun _ _ => rfl, .inr (.inr ⟨hflushing, hflushing⟩)⟩

/-- The input genbuf after the first transform wanted `next`: what it did not consume,
maybe in a new block. -/
def Consumed (fresh : Bytes) (b b' : GenBuf) (next : UInt32) : Prop :=
  ∃ used, b' = b.consume used next ∨
    ∃ n, (b.consume used next).dwValidLen ≤ n ∧ b' = (b.consume used next).realloc fresh n

/-- A call of transform `i`, from `c` to `c'`. -/
structure Ran (fresh : Bytes) (i : Nat) (c : Core σ) (call : Call) (c' : Core σ) : Prop where
  logged : Logged i c call c'
  inAvail : c'.inAvail = c.inAvail
  inUsed : c'.inUsed = c.inUsed
  iOwner : c.g.iOwner ≠ some 0 → c'.g.iOwner ≠ some 0
  gbOut : c'.g.gbOut.dwValidLen = 0 → c'.g.gbOut.dwFilePos = c.g.gbOut.dwFilePos
  others : ∀ j, j ≠ i → (c'.xform j).eState = (c.xform j).eState
  created : (c'.xform i).eState ≠ .nonexistent
  flushing : (c.xform i).eState = .flushing →
    (c'.xform i).eState = .flushing ∨ (c'.xform i).eState = .done
  gbIn : ¬ (NeedInput c i ∧ i = 0) → c'.g.gbIn = c.g.gbIn
  consumed : NeedInput c i ∧ i = 0 → Consumed fresh c.g.gbIn c'.g.gbIn call.inNextPos

theorem Logged.of_log {i : Nat} {c c' c'' : Core σ} {call : Call} (h : Logged i c call c')
    (hlog : c''.log = c'.log) : Logged i c call c'' :=
  { h with log := hlog.trans h.log }

theorem updateInput_spec (i : Nat) (need : Prop) [Decidable need] (used : Nat) (next : UInt32)
    (c : Core σ) :
    let c' := updateInput i need used next c
    c'.g.gbIn = (if need ∧ i = 0 then c.g.gbIn.consume used next else c.g.gbIn) ∧
      c'.log = c.log ∧ c'.inAvail = c.inAvail ∧ c'.inUsed = c.inUsed ∧
      (c.g.iOwner ≠ some 0 → c'.g.iOwner ≠ some 0) ∧ c'.g.gbOut = c.g.gbOut ∧
      ∀ j, c'.xform j = c.xform j := by
  unfold updateInput
  dsimp only
  have hmid : ∀ d : Core σ,
      d = (if 0 < used ∧ i ≠ 0 then { c with g := { c.g with iOwner := none, dwMidValidLen := 0 } }
        else c) →
      d.g.gbIn = c.g.gbIn ∧ d.log = c.log ∧ d.inAvail = c.inAvail ∧ d.inUsed = c.inUsed ∧
      (c.g.iOwner ≠ some 0 → d.g.iOwner ≠ some 0) ∧ d.g.gbOut = c.g.gbOut ∧
      ∀ j, d.xform j = c.xform j := by
    rintro d rfl
    split
    · exact ⟨rfl, rfl, rfl, rfl, fun _ => Option.some_ne_none 0 |>.symm, rfl, fun _ => rfl⟩
    · exact ⟨rfl, rfl, rfl, rfl, id, rfl, fun _ => rfl⟩
  generalize (if 0 < used ∧ i ≠ 0 then
    { c with g := { c.g with iOwner := none, dwMidValidLen := 0 } } else c) = d at hmid
  obtain ⟨hgbIn, hlog, havail, hused, howner, hgbOut, hxform⟩ := hmid d rfl
  split
  · exact ⟨by rw [← hgbIn]; rfl, hlog, havail, hused, howner, hgbOut, hxform⟩
  · exact ⟨hgbIn, hlog, havail, hused, howner, hgbOut, hxform⟩

theorem updateOutput_spec (i used : Nat) (thisPos : UInt32) (c : Core σ) :
    Leaves (updateOutput i used thisPos c) (fun e => e = ⟨true, c⟩) fun c' =>
      c'.g.gbIn = c.g.gbIn ∧ c'.log = c.log ∧ c'.inAvail = c.inAvail ∧ c'.inUsed = c.inUsed ∧
      (c.g.iOwner ≠ some 0 → c'.g.iOwner ≠ some 0) ∧
      (c'.g.gbOut.dwValidLen = 0 → c'.g.gbOut.dwFilePos = c.g.gbOut.dwFilePos) ∧
      ∀ j, c'.xform j = c.xform j := by
  unfold updateOutput
  split
  · rename_i hused
    split
    · exact ⟨rfl, rfl, rfl, rfl, id, fun hempty => absurd hempty (Nat.ne_of_gt hused),
        fun _ => rfl⟩
    · refine leaves_insure rfl fun _ => ?_
      refine ⟨rfl, rfl, rfl, rfl, fun _ h => ?_, fun _ => rfl, fun _ => rfl⟩
      exact absurd (Option.some.inj h) (Nat.succ_ne_zero i)
  · exact ⟨rfl, rfl, rfl, rfl, id, fun _ => rfl, fun _ => rfl⟩

theorem newInBuf_spec (fresh : Bytes) (i minIn : Nat) (c : Core σ) :
    ((newInBuf fresh i minIn c).g.gbIn = c.g.gbIn ∨ ∃ n, c.g.gbIn.dwValidLen ≤ n ∧
      (newInBuf fresh i minIn c).g.gbIn = c.g.gbIn.realloc fresh n) ∧
    (i ≠ 0 → (newInBuf fresh i minIn c).g.gbIn = c.g.gbIn) ∧
    Keeps { c with g := { c.g with gbIn := (newInBuf fresh i minIn c).g.gbIn } }
      (newInBuf fresh i minIn c) ∧
    ∀ j, (newInBuf fresh i minIn c).xform j = c.xform j := by
  unfold newInBuf
  split
  · rename_i hi
    exact ⟨.inr ⟨_, le_max_right _ _, rfl⟩, fun h => absurd hi h, ⟨rfl, rfl, rfl, rfl, rfl, rfl⟩,
      fun _ => rfl⟩
  · exact ⟨.inl rfl, fun _ => rfl, Keeps.refl c, fun _ => rfl⟩

theorem newOutBuf_spec (fresh : Bytes) (i minOut : Nat) (c : Core σ) :
    Keeps c (newOutBuf fresh i minOut c) ∧
      ∀ j, (newOutBuf fresh i minOut c).xform j = c.xform j := by
  unfold newOutBuf
  split
  · exact ⟨⟨rfl, rfl, rfl, rfl, rfl, rfl⟩, fun _ => rfl⟩
  · exact ⟨Keeps.refl c, fun _ => rfl⟩

theorem selectCnvState_spec (i : Nat) (result : UInt16) (c : Core σ) :
    Keeps c (selectCnvState i result c) ∧
      (∀ j, j ≠ i → (selectCnvState i result c).xform j = c.xform j) ∧
      ((selectCnvState i result c).xform i).eState ≠ .nonexistent := by
  unfold selectCnvState
  refine ⟨keeps_setXform .., fun j hj => setXform_xform_of_ne _ _ hj, ?_⟩
  rw [setXform_xform]
  dsimp only
  split <;> decide

theorem headerDone_spec (tbl : Nat → XformTbl σ) (fresh : Bytes) (i : Nat) (result : UInt16)
    (c : Core σ) :
    ((headerDone tbl fresh i result c).g.gbIn = c.g.gbIn ∨ ∃ n, c.g.gbIn.dwValidLen ≤ n ∧
      (headerDone tbl fresh i result c).g.gbIn = c.g.gbIn.realloc fresh n) ∧
    (i ≠ 0 → (headerDone tbl fresh i result c).g.gbIn = c.g.gbIn) ∧
    Keeps { c with g := { c.g with gbIn := (headerDone tbl fresh i result c).g.gbIn } }
      (headerDone tbl fresh i result c) ∧
    (∀ j, j ≠ i → ((headerDone tbl fresh i result c).xform j).eState = (c.xform j).eState) ∧
    ((headerDone tbl fresh i result c).xform i).eState ≠ .nonexistent := by
  unfold headerDone
  generalize (tbl i).getActualBufSizes (c.xform i).hXform = sizes
  obtain ⟨minIn, minOut, h⟩ := sizes
  dsimp only
  generalize hx : ({ c.xform i with
    hXform := h, dwMinInBufLen := minIn, dwMinOutBufLen := minOut } : XformInfo σ) = x
  obtain ⟨hgbIn, hother, hkeeps, hxform⟩ := newInBuf_spec fresh i minIn (c.setXform i x)
  generalize newInBuf fresh i minIn (c.setXform i x) = d at *
  generalize (if i ≠ d.g.xfCount - 1 ∧ (if i = 0 then 0 else minIn) < minOut then minOut
    else if i = 0 then 0 else minIn) = n
  have hgrow := keeps_growMidBufs fresh n d
  obtain ⟨hout, houtx⟩ := newOutBuf_spec fresh i minOut (growMidBufs fresh n d)
  obtain ⟨hselect, hselectx, hcreated⟩ :=
    selectCnvState_spec i result (newOutBuf fresh i minOut (growMidBufs fresh n d))
  have hall := (hgrow.trans hout).trans hselect
  generalize selectCnvState i result (newOutBuf fresh i minOut (growMidBufs fresh n d)) = e at *
  refine ⟨?_, ?_, ?_, ?_, hcreated⟩
  · rw [hall.gbIn]
    exact hgbIn
  · rw [hall.gbIn]
    exact hother
  · have hfirst : Keeps { c with g := { c.g with gbIn := e.g.gbIn } } d := by
      rw [hall.gbIn]
      exact ⟨rfl, hkeeps.log, hkeeps.inAvail, hkeeps.inUsed, hkeeps.iOwner, hkeeps.filePos⟩
    exact hfirst.trans hall
  · intro j hj
    rw [hselectx j hj, houtx, growMidBufs_xform, hxform, setXform_xform_of_ne _ _ hj]

theorem parseHeader_spec (i : Nat) (c : Core σ) (h : (c.xform i).eState = .parsingHeader) :
    Leaves (parseHeader tbl fresh i c) (fun e => e.fatal = true ∧ ∃ call, Logged i c call e.core)
      fun c' => ∃ call, Ran fresh i c call c' := by
  unfold parseHeader
  dsimp only
  generalize (tbl i).getActualTraits (c.xform i).hXform (inputLen i c) (inputOf i c)
    (c.xform i).inTraits (c.xform i).outTraits = r
  generalize hx : ({ c.xform i with
    hXform := r.xform, inTraits := r.inTraits, outTraits := r.outTraits } : XformInfo σ) = x
  generalize hcall : (⟨i, (c.xform i).eState, inputLen i c, some (inputOf i c), 0, r.result, r.inUsed,
    r.inNextPos, 0, 0⟩ : Call) = call
  have hlogged : Logged i c call ((c.setXform i x).logCall call) := by
    subst hcall
    refine ⟨rfl, rfl, rfl, rfl, fun buf hbuf => ⟨?_, (Option.some.inj hbuf).symm⟩⟩
    rw [h]
    decide
  refine leaves_insure ⟨rfl, call, hlogged⟩ fun _ => ?_
  obtain ⟨hgbIn, hlog, havail, hused, howner, hgbOut, hxform⟩ :=
    updateInput_spec i True r.inUsed r.inNextPos ((c.setXform i x).logCall call)
  generalize updateInput i True r.inUsed r.inNextPos ((c.setXform i x).logCall call) = d at *
  have hnext : call.inNextPos = r.inNextPos := by rw [← hcall]
  have hstate : x.eState = .parsingHeader := by rw [← hx, ← h]
  have hflushing : (c.xform i).eState ≠ .flushing := by
    rw [h]
    decide
  have hran : Ran fresh i c call d :=
    { logged := hlogged.of_log hlog
      inAvail := havail
      inUsed := hused
      iOwner := howner
      gbOut := fun _ => by rw [hgbOut]; rfl
      others := fun j hj => by rw [hxform]; exact congrArg _ (setXform_xform_of_ne _ _ hj)
      created := by
        have hsame : (d.xform i).eState = x.eState := by
          rw [hxform]
          exact congrArg _ (setXform_xform ..)
        rw [hsame, hstate]
        decide
      flushing := fun hf => absurd hf hflushing
      gbIn := fun hno => by
        rw [hgbIn, if_neg fun hyes => hno ⟨.inl h, hyes.2⟩]
        rfl
      consumed := fun hyes => by
        rw [hgbIn, if_pos ⟨trivial, hyes.2⟩, hnext]
        exact ⟨_, .inl rfl⟩ }
  by_cases hdone : Has r.result ipDone
  · rw [if_pos hdone]
    obtain ⟨hin, hother, hkeeps, hothers, hcreated⟩ :=
      headerDone_spec tbl fresh i r.result d
    refine ⟨call, ?_⟩
    exact
      { logged := hran.logged.of_log hkeeps.log
        inAvail := hkeeps.inAvail.trans havail
        inUsed := hkeeps.inUsed.trans hused
        iOwner := fun h₀ => by
          rw [hkeeps.iOwner]
          exact howner h₀
        gbOut := fun _ => hkeeps.filePos.trans (by rw [hgbOut]; rfl)
        others := fun j hj => (hothers j hj).trans (hran.others j hj)
        created := hcreated
        flushing := fun hf => absurd hf hflushing
        gbIn := fun hno => by
          have hi : i ≠ 0 := fun hi => hno ⟨.inl h, hi⟩
          rw [hother hi]
          exact hran.gbIn hno
        consumed := fun hyes => by
          have hd : d.g.gbIn = c.g.gbIn.consume r.inUsed r.inNextPos :=
            hgbIn.trans (if_pos ⟨trivial, hyes.2⟩)
          rw [hd] at hin
          rw [hnext]
          exact ⟨_, hin⟩ }
  · rw [if_neg hdone]
    exact ⟨call, hran⟩

theorem convertRow_spec (i : Nat) (c : Core σ) (h : (c.xform i).eState ≠ .parsingHeader)
    (hcreated : (c.xform i).eState ≠ .nonexistent) :
    Leaves (convertRow tbl i c) (fun e => e.fatal = true ∧ ∃ call, Logged i c call e.core)
      fun c' => ∃ call, Ran fresh i c call c' := by
  unfold convertRow
  dsimp only
  generalize (tbl i).convert (c.xform i).hXform (inputLen i c) _ _ _ = r
  generalize hx : ({ c.xform i with hXform := r.xform } : XformInfo σ) = x
  generalize hcall : (⟨i, (c.xform i).eState, inputLen i c, _, _, r.result, r.inUsed,
    r.inNextPos, r.outUsed, r.outThisPos⟩ : Call) = call
  have hstate : x.eState = (c.xform i).eState := by rw [← hx]
  have hset := keeps_setOutBuf (c.setXform i x) i r.outBuf
  have hsetx : ∀ j, ((c.setXform i x).setOutBuf i r.outBuf).xform j = (c.setXform i x).xform j :=
    fun j => setOutBuf_xform (c.setXform i x) i j r.outBuf
  generalize (c.setXform i x).setOutBuf i r.outBuf = d₀ at *
  have hlogged : Logged i c call (d₀.logCall call) := by
    subst hcall
    refine ⟨?_, rfl, rfl, rfl, fun buf hbuf => ?_⟩
    · show d₀.log ++ _ = _
      rw [hset.log]
      rfl
    · dsimp only at hbuf
      split at hbuf
      · exact absurd hbuf (by simp)
      · rename_i hnot
        exact ⟨hnot, (Option.some.inj hbuf).symm⟩
  refine leaves_insure ⟨rfl, call, hlogged⟩ fun _ => ?_
  have hin := updateInput_spec i ((c.xform i).eState = .converting) r.inUsed r.inNextPos
    (d₀.logCall call)
  generalize updateInput i ((c.xform i).eState = .converting) r.inUsed r.inNextPos
    (d₀.logCall call) = d at *
  obtain ⟨hgbIn, hlog, havail, hused, howner, hgbOut, hxform⟩ := hin
  have hout := updateOutput_spec i r.outUsed r.outThisPos d
  have hran : Leaves (updateOutput i r.outUsed r.outThisPos d)
      (fun e => e.fatal = true ∧ ∃ call, Logged i c call e.core) fun d' =>
        Ran fresh i c call d' ∧ (d'.xform i).eState = (c.xform i).eState := by
    cases hd : updateOutput i r.outUsed r.outThisPos d with
    | error e =>
      rw [hd] at hout
      obtain rfl : e = ⟨true, d⟩ := hout
      exact ⟨rfl, call, hlogged.of_log hlog⟩
    | ok d' =>
      rw [hd] at hout
      obtain ⟨hgbIn', hlog', havail', hused', howner', hgbOut', hxform'⟩ := hout
      have hsame : ∀ j, d'.xform j = (c.setXform i x).xform j := fun j =>
        (hxform' j).trans ((hxform j).trans (hsetx j))
      have hsameState : (d'.xform i).eState = (c.xform i).eState := by
        rw [hsame, setXform_xform, hstate]
      refine ⟨?_, hsameState⟩
      exact
        { logged := hlogged.of_log (hlog'.trans hlog)
          inAvail := havail'.trans (havail.trans hset.inAvail)
          inUsed := hused'.trans (hused.trans hset.inUsed)
          iOwner := fun h₀ => howner' (howner (by
            show d₀.g.iOwner ≠ some 0
            rw [hset.iOwner]
            exact h₀))
          gbOut := fun hempty => (hgbOut' hempty).trans (by
            rw [hgbOut]
            exact hset.filePos)
          others := fun j hj => by rw [hsame, setXform_xform_of_ne _ _ hj]
          created := by
            rw [hsameState]
            exact hcreated
          flushing := fun hf => .inl (hsameState.trans hf)
          gbIn := fun hno => by
            have hno' : ¬ ((c.xform i).eState = .converting ∧ i = 0) := fun hyes =>
              hno ⟨.inr hyes.1, hyes.2⟩
            rw [hgbIn', hgbIn, if_neg hno']
            exact hset.gbIn
          consumed := fun hyes => by
            have hconv : (c.xform i).eState = .converting := hyes.1.resolve_left h
            rw [hgbIn', hgbIn, if_pos ⟨hconv, hyes.2⟩, ← hcall]
            have hgb : (d₀.logCall call).g.gbIn = c.g.gbIn := hset.gbIn
            rw [← hcall] at hgb
            rw [hgb]
            exact ⟨_, .inl rfl⟩ }
  refine Leaves.bind hran fun d' hd' => ?_
  obtain ⟨hran, hsameState⟩ := hd'
  obtain ⟨hbits, hbitsOut, hbitsx⟩ := handleBits_spec tbl i r.result d'
  obtain ⟨hnext, hnextOut, hnextx, hstates⟩ :=
    nextState_spec i r.result (handleBits tbl i r.result d')
  have hall := hbits.trans hnext
  have hallOut := hnextOut.trans hbitsOut
  exact ⟨call,
    { logged := hran.logged.of_log hall.log
      inAvail := hall.inAvail.trans hran.inAvail
      inUsed := hall.inUsed.trans hran.inUsed
      iOwner := fun h₀ => by
        rw [hall.iOwner]
        exact hran.iOwner h₀
      gbOut := fun hempty => by
        rw [hallOut] at hempty ⊢
        exact hran.gbOut hempty
      others := fun j hj => by rw [hnextx j hj, hbitsx, hran.others j hj]
      created := by
        rcases hstates with hstate | ⟨-, hstate | hstate⟩ | ⟨-, hstate⟩ <;> (rw [hstate]; decide)
      flushing := fun hf => by
        rcases hstates with hdone | ⟨hnot, -⟩ | ⟨-, hflush⟩
        · exact .inr hdone
        · rw [hbitsx, hsameState] at hnot
          exact absurd hf hnot
        · exact .inl hflush
      gbIn := fun hno => hall.gbIn.trans (hran.gbIn hno)
      consumed := fun hyes => by
        rw [hall.gbIn]
        exact hran.consumed hyes }⟩

theorem call_spec (tbl : Nat → XformTbl σ) (fresh : Bytes) (i : Nat) (c : Core σ)
    (hcreated : (c.xform i).eState ≠ .nonexistent) :
    Leaves (if (c.xform i).eState = .parsingHeader then parseHeader tbl fresh i c
      else convertRow tbl i c) (fun e => e.fatal = true ∧ ∃ call, Logged i c call e.core)
      fun c' => ∃ call, Ran fresh i c call c' := by
  by_cases h : (c.xform i).eState = .parsingHeader
  · rw [if_pos h]
    exact parseHeader_spec i c h
  · rw [if_neg h]
    exact convertRow_spec i c h hcreated

/-! ## A whole round -/

/-- The preparations of transform `i`, from `c` to `d`. -/
inductive Prepared (fresh : Bytes) (input : Option Bytes) (i : Nat) (c d : Core σ) : Prop
  | ready (c₁ c₂ : Core σ) :
    (((c.xform i).eState ≠ .nonexistent ∧ c₁ = c) ∨
      ((c.xform i).eState = .nonexistent ∧ ∃ x n, x.eState = .parsingHeader ∧
        c₁ = if i = 0 then (c.setXform i x).setIn ⟨fresh, n, 0, 0, 0⟩ else c.setXform i x)) →
    (c₂ = c₁ ∨ ((c₁.xform i).eState = .converting ∧
      c₂ = c₁.setXform i { c₁.xform i with eState := .flushing })) →
    (d = c₂ ∨ (i = 0 ∧ NeedInput c₂ 0 ∧ ∃ src, input = some src ∧ d = fillInput src c₂)) →
    Prepared fresh input i c d

theorem setXform_created {c : Core σ} {i : Nat} {x : XformInfo σ}
    (hx : x.eState ≠ .nonexistent) : ((c.setXform i x).xform i).eState ≠ .nonexistent := by
  rw [setXform_xform]
  exact hx

theorem Prepared.created {i : Nat} {c d : Core σ} (h : Prepared fresh input i c d) :
    (d.xform i).eState ≠ .nonexistent := by
  obtain ⟨c₁, c₂, hcreate, hflush, htake⟩ := h
  have h₁ : (c₁.xform i).eState ≠ .nonexistent := by
    rcases hcreate with ⟨hexists, rfl⟩ | ⟨-, x, n, hx, rfl⟩
    · exact hexists
    · have hparsing : x.eState ≠ .nonexistent := by
        rw [hx]
        decide
      split
      · exact setXform_created hparsing
      · exact setXform_created hparsing
  have h₂ : (c₂.xform i).eState ≠ .nonexistent := by
    rcases hflush with rfl | ⟨-, rfl⟩
    · exact h₁
    · exact setXform_created XformState.noConfusion
  rcases htake with rfl | ⟨-, -, src, -, rfl⟩
  · exact h₂
  · exact h₂

theorem Prepared.quiet {i : Nat} {c d : Core σ} (h : Prepared fresh input i c d) :
    d.log = c.log ∧ d.g.gbOut = c.g.gbOut ∧ d.g.iOwner = c.g.iOwner := by
  obtain ⟨c₁, c₂, hcreate, hflush, htake⟩ := h
  have h₁ : c₁.log = c.log ∧ c₁.g.gbOut = c.g.gbOut ∧ c₁.g.iOwner = c.g.iOwner := by
    rcases hcreate with ⟨-, rfl⟩ | ⟨-, x, n, -, rfl⟩
    · exact ⟨rfl, rfl, rfl⟩
    · split <;> exact ⟨rfl, rfl, rfl⟩
  have h₂ : c₂.log = c.log ∧ c₂.g.gbOut = c.g.gbOut ∧ c₂.g.iOwner = c.g.iOwner := by
    rcases hflush with rfl | ⟨-, rfl⟩
    · exact h₁
    · exact h₁
  rcases htake with rfl | ⟨-, -, src, -, rfl⟩
  · exact h₂
  · exact h₂

theorem runXform_spec (tbl : Nat → XformTbl σ) (fresh : Bytes) (input : Option Bytes) (i : Nat)
    (c : Core σ) :
    Leaves (runXform tbl fresh input i c)
      (fun e => (e.fatal = false ∧ i = 0 ∧ Prepared fresh input 0 c e.core) ∨
        (e.fatal = true ∧ (e.core.log = c.log ∨
          ∃ d call, Prepared fresh input i c d ∧ Logged i d call e.core)))
      fun c' => ∃ d call, Prepared fresh input i c d ∧ Ran fresh i d call c' := by
  unfold runXform
  have hcreate := create_spec tbl fresh i c
  cases hc₁ : create tbl fresh i c with
  | error e =>
    rw [hc₁] at hcreate
    obtain rfl : e = ⟨true, c⟩ := hcreate
    exact .inr ⟨rfl, .inl rfl⟩
  | ok c₁ =>
    rw [hc₁] at hcreate
    have hflush := enterFlushing_spec input i c₁
    show Leaves (takeInput input i (enterFlushing input i c₁) >>= _) _ _
    generalize enterFlushing input i c₁ = c₂ at hflush
    have htake := takeInput_spec input i c₂
    cases hd : takeInput input i c₂ with
    | error e =>
      rw [hd] at htake
      rcases htake with rfl | ⟨rfl, hneed, src, hsrc, rfl⟩
      · have hprepared : Prepared fresh input i c c₂ := .ready c₁ c₂ hcreate hflush (.inl rfl)
        exact .inr ⟨rfl, .inl hprepared.quiet.1⟩
      · exact .inl ⟨rfl, rfl, .ready c₁ c₂ hcreate hflush (.inr ⟨rfl, hneed, src, hsrc, rfl⟩)⟩
    | ok d =>
      rw [hd] at htake
      have hprepared : Prepared fresh input i c d := .ready c₁ c₂ hcreate hflush htake
      refine leaves_insure (.inr ⟨rfl, .inl hprepared.quiet.1⟩) fun _ => ?_
      have hcall := call_spec tbl fresh i d hprepared.created
      cases hrun : (if (d.xform i).eState = .parsingHeader then parseHeader tbl fresh i d
        else convertRow tbl i d) with
      | error e =>
        rw [hrun] at hcall
        obtain ⟨hfatal, call, hlogged⟩ := hcall
        exact .inr ⟨hfatal, .inr ⟨d, call, hprepared, hlogged⟩⟩
      | ok c' =>
        rw [hrun] at hcall
        obtain ⟨call, hran⟩ := hcall
        exact ⟨d, call, hprepared, hran⟩

/-- **The output genbuf stays where it is** until something is put into it. -/
theorem process_gbOut (tbl : Nat → XformTbl σ) (fresh : Bytes) (input : Option Bytes)
    (c : Core σ) :
    Leaves (process tbl fresh input c) (fun _ => True) fun c' =>
      c'.g.gbOut.dwValidLen = 0 → c'.g.gbOut.dwFilePos = c.g.gbOut.dwFilePos := by
  unfold process
  split
  · trivial
  cases select c.g with
  | none => trivial
  | some i =>
    have hspec := runXform_spec tbl fresh input i c
    dsimp only
    cases hrun : runXform tbl fresh input i c with
    | error e => trivial
    | ok c' =>
      rw [hrun] at hspec
      obtain ⟨d, call, hprepared, hran⟩ := hspec
      intro hempty
      rw [hran.gbOut hempty, hprepared.quiet.2.1]

end Hplip.Ip
