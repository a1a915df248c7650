import Hplip.Ip.Rounds

/-!
# Input positions (ipmain.c)

The input genbuf shows the file from its position on, and the client goes on where the
genbuf ends. A transform that wants another position gets an empty genbuf there; but what
the client's buffer still holds in the same call is from the old position, and the next
round takes it.
-/

namespace Hplip.Ip

open Loop

variable {σ : Type} {tbl : Nat → XformTbl σ} {fresh : Bytes} {input : Option Bytes}
  {file : UInt32 → UInt8}

/-! ## Calls of the first transform -/

/-- `P` holds of each call and the calls before it. -/
def Each (P : List Call → Call → Prop) : List Call → List Call → Prop
  | _, [] => True
  | before, call :: rest => P before call ∧ Each P (before ++ [call]) rest

instance Each.decidable {P : List Call → Call → Prop} [∀ before call, Decidable (P before call)] :
    ∀ before log, Decidable (Each P before log)
  | _, [] => isTrue trivial
  | before, call :: rest =>
    have := Each.decidable (P := P) (before ++ [call]) rest
    inferInstanceAs (Decidable (_ ∧ _))

theorem each_append {P : List Call → Call → Prop} (before log : List Call) (call : Call) :
    Each P before (log ++ [call]) ↔ Each P before log ∧ P (before ++ log) call := by
  induction log generalizing before with
  | nil =>
    rw [List.append_nil]
    exact ⟨fun h => ⟨trivial, h.1⟩, fun h => ⟨h.2, trivial⟩⟩
  | cons first log ih =>
    have hassoc : before ++ [first] ++ log = before ++ first :: log := by
      rw [List.append_assoc]
      rfl
    show P before first ∧ Each P (before ++ [first]) (log ++ [call]) ↔ _
    rw [ih, hassoc, ← and_assoc]
    rfl

/-- The position that the first transform asked for last: 0 before its first call. -/
def asked (log : List Call) : UInt32 :=
  log.foldl (fun p call => if call.iXform = 0 then call.inNextPos else p) 0

theorem asked_append (log : List Call) (call : Call) :
    asked (log ++ [call]) = if call.iXform = 0 then call.inNextPos else asked log := by
  rw [asked, List.foldl_append]
  rfl

/-- A call of the first transform sees the file from the position it asked for last. -/
def SeesFile (file : UInt32 → UInt8) (before : List Call) (call : Call) : Prop :=
  call.iXform = 0 → ∀ buf, call.inBuf = some buf →
    ∀ k < call.inAvail, buf k = file (asked before + UInt32.ofNat k)

/-- Every call does. -/
def Delivered (file : UInt32 → UInt8) (log : List Call) : Prop := Each (SeesFile file) [] log

def StaysPut (before : List Call) (call : Call) : Prop :=
  call.iXform = 0 → call.eState = .convNotRfd → call.inNextPos = asked before

instance (before : List Call) (call : Call) : Decidable (StaysPut before call) := by
  unfold StaysPut
  infer_instance

def NotReadyStays (log : List Call) : Prop := Each StaysPut [] log

instance (log : List Call) : Decidable (NotReadyStays log) := by
  unfold NotReadyStays
  infer_instance

/-! ## The input genbuf -/

structure Shows (file : UInt32 → UInt8) (b : GenBuf) : Prop where
  byte : ∀ k < b.dwValidLen, b.pbBuf (b.dwValidStart + k) = file (b.dwFilePos + UInt32.ofNat k)
  fits : b.dwValidStart + b.dwValidLen ≤ b.dwBufLen

theorem Shows.leftJustify {b : GenBuf} (h : Shows file b) (n : Nat) :
    Shows file (b.leftJustify n) := by
  unfold GenBuf.leftJustify
  split
  · constructor
    · intro k hk
      show blit b.pbBuf 0 (fun k => b.pbBuf (b.dwValidStart + k)) b.dwValidLen (0 + k)
        = file (b.dwFilePos + UInt32.ofNat k)
      rw [blit_add _ _ _ hk]
      exact h.byte k hk
    · have hfits := h.fits
      show 0 + b.dwValidLen ≤ b.dwBufLen
      omega
  · exact h

theorem leftJustify_same (b : GenBuf) (n : Nat) : (b.leftJustify n).dwValidLen = b.dwValidLen ∧
    (b.leftJustify n).dwFilePos = b.dwFilePos := by
  unfold GenBuf.leftJustify
  split <;> exact ⟨rfl, rfl⟩

theorem Shows.fill {b : GenBuf} (h : Shows file b) (src : Bytes) {n avail : Nat}
    (hn : n = b.room avail)
    (hsrc : ∀ k < n, src k = file (b.dwFilePos + UInt32.ofNat (b.dwValidLen + k))) :
    Shows file (b.fill src n) := by
  have hfits := h.fits
  constructor
  · intro k hk
    have hk : k < b.dwValidLen + n := hk
    show blit b.pbBuf (b.dwValidStart + b.dwValidLen) src n (b.dwValidStart + k)
      = file (b.dwFilePos + UInt32.ofNat k)
    by_cases hold : k < b.dwValidLen
    · rw [blit_of_not_mem (.inl (by lia))]
      exact h.byte k hold
    · obtain ⟨j, rfl⟩ := Nat.exists_eq_add_of_le (Nat.le_of_not_lt hold)
      rw [← Nat.add_assoc, blit_add _ _ _ (by lia), hsrc j (by lia)]
  · have hroom : n ≤ b.dwBufLen - (b.dwValidStart + b.dwValidLen) := by
      rw [hn]
      exact min_le_left _ _
    show b.dwValidStart + (b.dwValidLen + n) ≤ b.dwBufLen
    lia

theorem shows_empty (buf : Bytes) (n : Nat) (pos : UInt32) : Shows file ⟨buf, n, 0, 0, pos⟩ :=
  ⟨fun k hk => absurd hk (Nat.not_lt_zero k), Nat.zero_le n⟩

theorem consume_filePos (b : GenBuf) (used : Nat) (next : UInt32) :
    (b.consume used next).dwFilePos = next := by
  have hcases : ∀ d : GenBuf, (if d.dwFilePos ≠ next then
      { d with dwValidLen := 0, dwValidStart := 0, dwFilePos := next } else d).dwFilePos = next := by
    intro d
    split
    · rfl
    · rename_i h
      exact not_not.mp h
  exact hcases _

theorem Shows.consume {b : GenBuf} (h : Shows file b) (used : Nat) (next : UInt32) :
    Shows file (b.consume used next) := by
  have hfits := h.fits
  have hcases : ∀ d : GenBuf, Shows file d →
      Shows file (if d.dwFilePos ≠ next then
        { d with dwValidLen := 0, dwValidStart := 0, dwFilePos := next } else d) := by
    intro d hd
    split
    · exact shows_empty ..
    · exact hd
  refine hcases _ ?_
  split
  · exact shows_empty ..
  · rename_i hused
    constructor
    · intro k hk
      have hk : k < b.dwValidLen - used := hk
      have hbyte := h.byte (used + k) (by lia)
      show b.pbBuf (b.dwValidStart + used + k) = file (b.dwFilePos + UInt32.ofNat used + _)
      rw [Nat.add_assoc, hbyte, UInt32.ofNat_add, UInt32.add_assoc]
    · show b.dwValidStart + used + (b.dwValidLen - used) ≤ b.dwBufLen
      lia

theorem Shows.realloc {b : GenBuf} (h : Shows file b) (fresh : Bytes) {n : Nat}
    (hn : b.dwValidLen ≤ n) : Shows file (b.realloc fresh n) := by
  constructor
  · intro k hk
    show blit fresh 0 (fun k => b.pbBuf (b.dwValidStart + k)) b.dwValidLen (0 + k)
      = file (b.dwFilePos + UInt32.ofNat k)
    have hk : k < b.dwValidLen := hk
    rw [blit_add _ _ _ hk]
    exact h.byte k hk
  · show 0 + b.dwValidLen ≤ n
    omega

theorem Consumed.shows {b b' : GenBuf} {next : UInt32} (h : Consumed fresh b b' next)
    (hb : Shows file b) : Shows file b' ∧ b'.dwFilePos = next := by
  obtain ⟨used, rfl | ⟨n, hn, rfl⟩⟩ := h
  · exact ⟨hb.consume used next, consume_filePos b used next⟩
  · exact ⟨(hb.consume used next).realloc fresh hn, consume_filePos b used next⟩

/-! ## One round -/

def IsTaking (s : XformState) : Prop :=
  s = .parsingHeader ∨ s = .converting ∨ s = .convNotRfd

/-- The first transform sees what it asked for, and will. -/
structure InStep (file : UInt32 → UInt8) (c : Core σ) : Prop where
  delivered : Delivered file c.log
  shown : Shows file c.g.gbIn
  iOwner : c.g.iOwner ≠ some 0
  unborn : (c.xform 0).eState = .nonexistent →
    asked c.log = 0 ∧ c.g.gbIn.dwFilePos = 0 ∧ c.g.gbIn.dwValidLen = 0
  place : IsTaking (c.xform 0).eState → NotReadyStays c.log → asked c.log = c.g.gbIn.dwFilePos

theorem InStep.of_same {c c' : Core σ} (h : InStep file c) (hlog : c'.log = c.log)
    (hgbIn : c'.g.gbIn = c.g.gbIn) (howner : c'.g.iOwner = c.g.iOwner)
    (hstate : (c'.xform 0).eState = (c.xform 0).eState) : InStep file c' where
  delivered := hlog ▸ h.delivered
  shown := hgbIn ▸ h.shown
  iOwner := howner ▸ h.iOwner
  unborn := by
    rw [hlog, hgbIn, hstate]
    exact h.unborn
  place := by
    rw [hlog, hgbIn, hstate]
    exact h.place

def Continues (start : UInt32) (c : Core σ) : Prop :=
  start + UInt32.ofNat c.inUsed = c.g.gbIn.dwFilePos + UInt32.ofNat c.g.gbIn.dwValidLen

instance (start : UInt32) (c : Core σ) : Decidable (Continues start c) := by
  unfold Continues
  infer_instance

/-- What the client's buffer holds, in a call that started at `start`. -/
def Presents (file : UInt32 → UInt8) (start : UInt32) (input : Option Bytes) : Prop :=
  ∀ src, input = some src → ∀ k, src k = file (start + UInt32.ofNat k)

theorem needInput_exists {c : Core σ} (h : NeedInput c 0) :
    (c.xform 0).eState ≠ .nonexistent := by
  intro hstate
  rcases h with h | h
  · exact absurd (hstate.symm.trans h) (by decide)
  · exact absurd (hstate.symm.trans h) (by decide)

theorem InStep.fill {start : UInt32} {src : Bytes} {c : Core σ} (h : InStep file c)
    (hneed : NeedInput c 0) (hsrc : ∀ k, src k = file (start + UInt32.ofNat k)) (hgoes : 0 < c.inAvail → Continues start c) :
    InStep file (fillInput src c) := by
  obtain ⟨hlen, hpos⟩ := leftJustify_same c.g.gbIn (c.xform 0).dwMinInBufLen
  have hshown := h.shown.leftJustify (c.xform 0).dwMinInBufLen
  generalize hb : c.g.gbIn.leftJustify (c.xform 0).dwMinInBufLen = b at *
  generalize hn : b.room c.inAvail = n
  have hfilled : (fillInput src c).g.gbIn = b.fill (fun k => src (c.inUsed + k)) n := by
    unfold fillInput
    dsimp only
    rw [hb, hn]
    rfl
  have hshown' : Shows file (b.fill (fun k => src (c.inUsed + k)) n) := by
    refine hshown.fill _ hn.symm fun k hk => ?_
    have havail : 0 < c.inAvail := by
      have hle : n ≤ c.inAvail := hn ▸ min_le_right _ _
      omega
    have hcontinues : start + UInt32.ofNat c.inUsed = b.dwFilePos + UInt32.ofNat b.dwValidLen := by
      rw [hlen, hpos]
      exact hgoes havail
    rw [hsrc, UInt32.ofNat_add, UInt32.ofNat_add, ← UInt32.add_assoc, ← UInt32.add_assoc,
      hcontinues]
  exact
    { delivered := h.delivered
      shown := hfilled ▸ hshown'
      iOwner := h.iOwner
      unborn := fun hstate => absurd hstate (needInput_exists hneed)
      place := fun htaking hstays => by
        rw [hfilled]
        show asked c.log = b.dwFilePos
        rw [hpos]
        exact h.place htaking hstays }

theorem InStep.prepared {start : UInt32} {i : Nat} {c d : Core σ} (h : InStep file c)
    (hpresents : Presents file start input)
    (hgoes : i = 0 → ((c.xform 0).eState = .nonexistent ∨ NeedInput c 0) → input.isSome →
      0 < c.inAvail → Continues start c)
    (hprepared : Prepared fresh input i c d) : InStep file d := by
  obtain ⟨c₁, c₂, hcreate, hflush, htake⟩ := hprepared
  -- a new first transform has a new genbuf at position 0
  have h₁ : InStep file c₁ ∧ c₁.inAvail = c.inAvail ∧
      (Continues start c → Continues start c₁) ∧
      (NeedInput c₁ 0 → i = 0 → (c.xform 0).eState = .nonexistent ∨ NeedInput c 0) := by
    rcases hcreate with ⟨-, rfl⟩ | ⟨hnew, x, n, hx, rfl⟩
    · exact ⟨h, rfl, id, fun hneed _ => .inr hneed⟩
    · by_cases hi : i = 0
      · subst hi
        obtain ⟨hasked, hpos, hlen⟩ := h.unborn hnew
        rw [if_pos rfl]
        refine ⟨⟨h.delivered, shows_empty .., h.iOwner, fun hstate => ?_, fun _ _ => hasked⟩, rfl,
          fun hcont => ?_, fun _ _ => .inl hnew⟩
        · rw [setIn_xform, setXform_xform, hx] at hstate
          cases hstate
        · have hcont : start + UInt32.ofNat c.inUsed
              = c.g.gbIn.dwFilePos + UInt32.ofNat c.g.gbIn.dwValidLen := hcont
          rw [hpos, hlen] at hcont
          exact hcont
      · rw [if_neg hi]
        have hsame : (c.setXform i x).xform 0 = c.xform 0 :=
          setXform_xform_of_ne c x (Ne.symm hi)
        exact ⟨h.of_same rfl rfl rfl (congrArg _ hsame), rfl, id, fun _ hi' => absurd hi' hi⟩
  obtain ⟨h₁, havail, hcont, hneeds⟩ := h₁
  have h₂ : InStep file c₂ ∧ c₂.inAvail = c₁.inAvail ∧ (Continues start c₁ → Continues start c₂) ∧
      (NeedInput c₂ 0 → NeedInput c₁ 0) := by
    rcases hflush with rfl | ⟨hconv, rfl⟩
    · exact ⟨h₁, rfl, id, id⟩
    · by_cases hi : i = 0
      · subst hi
        refine ⟨⟨h₁.delivered, h₁.shown, h₁.iOwner, fun hstate => ?_, fun htaking => ?_⟩, rfl, id,
          fun _ => .inr hconv⟩
        · rw [setXform_xform] at hstate
          cases hstate
        · rw [setXform_xform] at htaking
          rcases htaking with h' | h' | h' <;> cases h'
      · have hsame := setXform_xform_of_ne c₁ { c₁.xform i with eState := .flushing } (Ne.symm hi)
        refine ⟨h₁.of_same rfl rfl rfl (congrArg _ hsame), rfl, id, fun hneed => ?_⟩
        rw [NeedInput, hsame] at hneed
        exact hneed
  obtain ⟨h₂, havail₂, hcont₂, hneeds₂⟩ := h₂
  rcases htake with rfl | ⟨hi, hneed, src, hsrc, rfl⟩
  · exact h₂
  · refine h₂.fill hneed (hpresents src hsrc) fun hpos => hcont₂ (hcont (hgoes hi ?_ ?_ ?_))
    · exact hneeds (hneeds₂ hneed) hi
    · rw [hsrc]
      rfl
    · rw [← havail, ← havail₂]
      exact hpos

theorem InStep.seesFile {i : Nat} {d c' : Core σ} {call : Call} (h : InStep file d)
    (hlogged : Logged i d call c') (hstays : NotReadyStays d.log)
    (hlive : i = 0 → IsTaking (d.xform 0).eState ∨ (d.xform 0).eState = .flushing) :
    SeesFile file d.log call := by
  intro hhead buf hbuf k hk
  obtain rfl : i = 0 := hlogged.index.symm.trans hhead
  obtain ⟨hnot, rfl⟩ := hlogged.inBuf buf hbuf
  have htaking : IsTaking (d.xform 0).eState := (hlive rfl).resolve_right hnot
  rw [h.place htaking hstays]
  rw [hlogged.inAvail] at hk
  exact h.shown.byte k hk

theorem InStep.logged {i : Nat} {d c' : Core σ} {call : Call} (h : InStep file d)
    (hlogged : Logged i d call c') (hstays : NotReadyStays d.log)
    (hlive : i = 0 → IsTaking (d.xform 0).eState ∨ (d.xform 0).eState = .flushing) :
    Delivered file c'.log := by
  rw [hlogged.log]
  exact (each_append [] d.log call).mpr ⟨h.delivered, h.seesFile hlogged hstays hlive⟩

theorem InStep.ran {i : Nat} {d c' : Core σ} {call : Call} (h : InStep file d)
    (hran : Ran fresh i d call c') (hstays : NotReadyStays d.log)
    (hlive : i = 0 → IsTaking (d.xform 0).eState ∨ (d.xform 0).eState = .flushing) :
    InStep file c' := by
  have hdelivered := h.logged hran.logged hstays hlive
  have hasked : asked c'.log = if i = 0 then call.inNextPos else asked d.log := by
    rw [hran.logged.log, asked_append, hran.logged.index]
  by_cases hi : i = 0
  · subst hi
    by_cases hneed : NeedInput d 0
    · obtain ⟨hshown, hpos⟩ := (hran.consumed ⟨hneed, rfl⟩).shows h.shown
      exact ⟨hdelivered, hshown, hran.iOwner h.iOwner, fun hnew => absurd hnew hran.created,
        fun _ _ => hasked.trans ((if_pos rfl).trans hpos.symm)⟩
    · have hgbIn := hran.gbIn fun hyes => hneed hyes.1
      refine ⟨hdelivered, hgbIn ▸ h.shown, hran.iOwner h.iOwner,
        fun hnew => absurd hnew hran.created, fun htaking hstays' => ?_⟩
      -- it was not ready for data, so that it stays where it is
      have hnotReady : (d.xform 0).eState = .convNotRfd := by
        rcases hlive rfl with (hs | hs | hs) | hs
        · exact absurd (.inl hs) hneed
        · exact absurd (.inr hs) hneed
        · exact hs
        · rcases hran.flushing hs with hs' | hs'
          · rw [hs'] at htaking
            rcases htaking with h' | h' | h' <;> cases h'
          · rw [hs'] at htaking
            rcases htaking with h' | h' | h' <;> cases h'
      have hcall : StaysPut d.log call := by
        have hall := hran.logged.log ▸ hstays'
        exact ((each_append [] d.log call).mp hall).2
      have hnext := hcall hran.logged.index (hran.logged.state.trans hnotReady)
      rw [hasked, if_pos rfl, hnext, hgbIn]
      exact h.place (.inr (.inr hnotReady)) hstays
  · have hgbIn := hran.gbIn fun hyes => hi hyes.2
    have hstate := hran.others 0 (Ne.symm hi)
    rw [if_neg hi] at hasked
    refine ⟨hdelivered, hgbIn ▸ h.shown, hran.iOwner h.iOwner, fun hnew => ?_,
      fun htaking hstays' => ?_⟩
    · rw [hasked, hgbIn]
      exact h.unborn (hstate ▸ hnew)
    · rw [hasked, hgbIn]
      rw [hstate] at htaking
      exact h.place htaking hstays

theorem Prepared.live {c d : Core σ} (h : Prepared fresh input 0 c d)
    (hdone : (c.xform 0).eState ≠ .done) :
    IsTaking (d.xform 0).eState ∨ (d.xform 0).eState = .flushing := by
  obtain ⟨c₁, c₂, hcreate, hflush, htake⟩ := h
  have h₁ : IsTaking (c₁.xform 0).eState ∨ (c₁.xform 0).eState = .flushing := by
    rcases hcreate with ⟨hexists, rfl⟩ | ⟨-, x, n, hx, rfl⟩
    · unfold IsTaking
      cases hstate : (c₁.xform 0).eState with
      | nonexistent => exact absurd hstate hexists
      | parsingHeader => exact .inl (.inl rfl)
      | converting => exact .inl (.inr (.inl rfl))
      | convNotRfd => exact .inl (.inr (.inr rfl))
      | flushing => exact .inr rfl
      | done => exact absurd hstate hdone
    · rw [if_pos rfl, setIn_xform, setXform_xform]
      exact .inl (.inl hx)
  have h₂ : IsTaking (c₂.xform 0).eState ∨ (c₂.xform 0).eState = .flushing := by
    rcases hflush with rfl | ⟨-, rfl⟩
    · exact h₁
    · rw [setXform_xform]
      exact .inr rfl
  rcases htake with rfl | ⟨-, -, src, -, rfl⟩
  · exact h₂
  · exact h₂

theorem select_live {g : Inst σ} {i : Nat} (h : select g = some i) (howner : g.iOwner ≠ some i) :
    (g.xfArray i).eState ≠ .done := by
  unfold select at h
  cases hown : g.iOwner with
  | some j =>
    rw [hown] at h howner
    exact absurd h howner
  | none =>
    rw [hown] at h
    cases hlast : (List.range g.xfCount).reverse.find?
        (fun i => (g.xfArray i).eState = .convNotRfd) with
    | some j =>
      rw [hlast] at h
      obtain rfl : j = i := Option.some.inj h
      have hfound := List.find?_some (p := fun i => (g.xfArray i).eState = .convNotRfd) hlast
      rw [of_decide_eq_true hfound]
      decide
    | none =>
      rw [hlast] at h
      have hfirst : (List.range g.xfCount).find? (fun i => (g.xfArray i).eState ≠ .done) = some i := h
      have hfound := List.find?_some (p := fun i => (g.xfArray i).eState ≠ .done) hfirst
      exact of_decide_eq_true hfound

/-- The condition on a round: the first transform takes no input from a client's buffer
that does not go on with the genbuf. -/
def InputMeets (start : UInt32) (input : Option Bytes) (c : Core σ) : Prop :=
  ¬ Has c.ipResult c.g.wResultMask → select c.g = some 0 →
    ((c.xform 0).eState = .nonexistent ∨ NeedInput c 0) → input.isSome → 0 < c.inAvail →
      Continues start c

instance (start : UInt32) (input : Option Bytes) (c : Core σ) :
    Decidable (InputMeets start input c) := by
  unfold InputMeets
  infer_instance

theorem allDone_same (c : Core σ) : (allDone c).log = c.log ∧ (allDone c).g.gbIn = c.g.gbIn ∧
    (allDone c).g.iOwner = c.g.iOwner ∧
    ((allDone c).xform 0).eState = (c.xform 0).eState := by
  refine ⟨rfl, rfl, rfl, ?_⟩
  unfold allDone
  dsimp only
  show ((Core.setXform _ 0 _).xform 0).eState = _
  rw [setXform_xform]
  dsimp only
  rcases eq_or_ne 0 (c.g.xfCount - 1) with h | h
  · rw [← h, setXform_xform]
  · rw [setXform_xform_of_ne _ _ h]

/-- **A round keeps what the first transform sees.** -/
theorem InStep.process {start : UInt32} {c : Core σ} (tbl : Nat → XformTbl σ) (fresh : Bytes)
    (h : InStep file c) (hpresents : Presents file start input) (hstays : NotReadyStays c.log)
    (hmeets : InputMeets start input c) :
    Leaves (process tbl fresh input c)
      (fun e => Delivered file e.core.log ∧ (e.fatal = false → InStep file e.core))
      (InStep file) := by
  unfold Ip.process
  by_cases hmask : Has c.ipResult c.g.wResultMask
  · rw [if_pos hmask]
    exact ⟨h.delivered, fun _ => h⟩
  rw [if_neg hmask]
  cases hselect : select c.g with
  | none =>
    obtain ⟨hlog, hgbIn, howner, hstate⟩ := allDone_same c
    have hdone := h.of_same hlog hgbIn howner hstate
    exact ⟨hdone.delivered, fun _ => hdone⟩
  | some i =>
    dsimp only
    have hlive : ∀ {d}, Prepared fresh input i c d → i = 0 →
        IsTaking (d.xform 0).eState ∨ (d.xform 0).eState = .flushing := by
      rintro d hprepared rfl
      exact hprepared.live (select_live hselect h.iOwner)
    have hprepare : ∀ {d}, Prepared fresh input i c d → InStep file d := fun hprepared =>
      h.prepared hpresents (fun hi => hmeets hmask (hselect.trans (congrArg some hi))) hprepared
    have hspec := runXform_spec tbl fresh input i c
    cases hrun : runXform tbl fresh input i c with
    | error e =>
      rw [hrun] at hspec
      rcases hspec with ⟨hgoes, rfl, hprepared⟩ | ⟨hfatal, hlog | ⟨d, call, hprepared, hlogged⟩⟩
      · have hstep := hprepare hprepared
        exact ⟨hstep.delivered, fun _ => hstep⟩
      · refine ⟨?_, fun hnot => absurd (hfatal.symm.trans hnot) (by decide)⟩
        rw [hlog]
        exact h.delivered
      · refine ⟨?_, fun hnot => absurd (hfatal.symm.trans hnot) (by decide)⟩
        refine (hprepare hprepared).logged hlogged ?_ (hlive hprepared)
        rw [hprepared.quiet.1]
        exact hstays
    | ok c' =>
      rw [hrun] at hspec
      obtain ⟨d, call, hprepared, hran⟩ := hspec
      refine (hprepare hprepared).ran hran ?_ (hlive hprepared)
      rw [hprepared.quiet.1]
      exact hstays

/-! ## Calls -/

/-- The condition on a round of the main loop: no input of the client is taken after a
seek in the same call, and no other position was asked for without taking input. -/
def RoundMeets (start : UInt32) (input : Option Bytes) (s : Core σ × Out) : Prop :=
  NotReadyStays s.1.log ∧
    ((writeOut s).1 = true → InputMeets start input (writeOut s).2.1)

instance (start : UInt32) (input : Option Bytes) (s : Core σ × Out) :
    Decidable (RoundMeets start input s) := by
  unfold RoundMeets
  infer_instance

theorem insertOk_same (c : Core σ) : (insertOk c).log = c.log ∧ (insertOk c).g.gbIn = c.g.gbIn ∧
    (insertOk c).g.iOwner = c.g.iOwner ∧ ∀ i, (insertOk c).xform i = c.xform i := by
  unfold insertOk
  split <;> exact ⟨rfl, rfl, rfl, fun _ => rfl⟩

theorem InStep.writeOut {s : Core σ × Out} (h : InStep file s.1) :
    InStep file (writeOut s).2.1 ∧ (writeOut s).2.1.log = s.1.log := by
  unfold Ip.writeOut
  split
  · rename_i b o _
    obtain ⟨hlog, hgbIn, howner, hxform⟩ :=
      insertOk_same { s.1 with g := { s.1.g with gbOut := b } }
    exact ⟨h.of_same hlog hgbIn howner (congrArg _ (hxform 0)), hlog⟩
  · exact ⟨h.of_same rfl rfl rfl rfl, rfl⟩

theorem InStep.round {start : UInt32} {s : Core σ × Out} (tbl : Nat → XformTbl σ) (fresh : Bytes)
    (h : InStep file s.1) (hpresents : Presents file start input)
    (hmeets : RoundMeets start input s) :
    Sum.elim (fun s' : Core σ × Out => InStep file s'.1)
      (fun e : Leave σ × Out => Delivered file e.1.core.log ∧
        (e.1.fatal = false → InStep file e.1.core)) (round tbl fresh input s) := by
  obtain ⟨hstep, hlog⟩ := h.writeOut
  obtain ⟨hstays, hinput⟩ := hmeets
  unfold Ip.round
  generalize Ip.writeOut s = w at *
  obtain ⟨flag, c, o⟩ := w
  cases flag with
  | false => exact ⟨hstep.delivered, fun _ => hstep⟩
  | true =>
    have hprocess := hstep.process tbl fresh hpresents (hlog ▸ hstays) (hinput rfl)
    dsimp only at hprocess ⊢
    cases hrun : Ip.process tbl fresh input c with
    | ok c' =>
      rw [hrun] at hprocess
      exact hprocess
    | error e =>
      rw [hrun] at hprocess
      exact hprocess

/-- What a client gives to a call: how many bytes of the file, or no buffer. -/
structure Request where
  inAvail : Option Nat
  output : Option (Bytes × Nat)

/-- The buffer of a client that presents the file from `pos` on. -/
def Request.buffer (file : UInt32 → UInt8) (pos : UInt32) (q : Request) : Option Bytes :=
  q.inAvail.map fun _ => fun k => file (pos + UInt32.ofNat k)

/-- A client that always presents the file from the position that the call before has
returned, up to a fatal error: the calls of transforms, each call up to `n` rounds. -/
def session (tbl : Nat → XformTbl σ) (fresh : Bytes) (n : Nat) (file : UInt32 → UInt8) :
    Inst σ → UInt32 → List Call → List Request → List Call
  | _, _, log, [] => log
  | g, pos, log, q :: qs =>
    match ipConvert tbl fresh (q.buffer file pos) n g log (q.inAvail.getD 0) pos q.output with
    | .inl c => c.log
    | .inr r =>
      if r.status = ipFatalError then r.log
      else session tbl fresh n file r.g r.inNextPos r.log qs

def SessionMeets (tbl : Nat → XformTbl σ) (fresh : Bytes) (n : Nat) (file : UInt32 → UInt8) :
    Inst σ → UInt32 → List Call → List Request → Prop
  | _, _, _, [] => True
  | g, pos, log, q :: qs =>
    Along (round tbl fresh (q.buffer file pos)) (RoundMeets pos (q.buffer file pos)) n
      (⟨g, q.inAvail.getD 0, 0, pos, 0, log⟩, openOut q.output) ∧
    match ipConvert tbl fresh (q.buffer file pos) n g log (q.inAvail.getD 0) pos q.output with
    | .inl _ => True
    | .inr r => r.status ≠ ipFatalError → SessionMeets tbl fresh n file r.g r.inNextPos r.log qs

instance SessionMeets.decidable (tbl : Nat → XformTbl σ) (fresh : Bytes) (n : Nat)
    (file : UInt32 → UInt8) : ∀ (g : Inst σ) (pos : UInt32) (log : List Call) (qs : List Request),
      Decidable (SessionMeets tbl fresh n file g pos log qs)
  | _, _, _, [] => isTrue trivial
  | g, pos, log, q :: qs =>
    match h : ipConvert tbl fresh (q.buffer file pos) n g log (q.inAvail.getD 0) pos q.output with
    | .inl _ => decidable_of_iff (Along _ _ _ _) (by rw [SessionMeets, h, and_true])
    | .inr r =>
      have := SessionMeets.decidable tbl fresh n file r.g r.inNextPos r.log qs
      decidable_of_iff (Along _ _ _ _ ∧
        (r.status ≠ ipFatalError → SessionMeets tbl fresh n file r.g r.inNextPos r.log qs))
        (by rw [SessionMeets, h])

/-- A job at its start, before the first call. -/
structure Opened (g : Inst σ) : Prop where
  unborn : (g.xfArray 0).eState = .nonexistent
  filePos : g.gbIn.dwFilePos = 0
  validStart : g.gbIn.dwValidStart = 0
  validLen : g.gbIn.dwValidLen = 0
  iOwner : g.iOwner = none

theorem session_inStep (tbl : Nat → XformTbl σ) (fresh : Bytes) (n : Nat) {c : Core σ}
    {pos : UInt32} (qs : List Request) (h : InStep file c)
    (hmeets : SessionMeets tbl fresh n file c.g pos c.log qs) :
    Delivered file (session tbl fresh n file c.g pos c.log qs) := by
  induction qs generalizing c pos with
  | nil => exact h.delivered
  | cons q qs ih =>
    obtain ⟨halong, hrest⟩ := hmeets
    have hpresents : Presents file pos (q.buffer file pos) := by
      intro src hsrc k
      obtain ⟨_, -, rfl⟩ := Option.map_eq_some_iff.mp hsrc
      rfl
    have hstart : InStep file
        (⟨c.g, q.inAvail.getD 0, 0, pos, 0, c.log⟩ : Core σ) := h.of_same rfl rfl rfl rfl
    have hcall := rounds_invariant (fun s : Core σ × Out => InStep file s.1)
      (fun e : Leave σ × Out => Delivered file e.1.core.log ∧
        (e.1.fatal = false → InStep file e.1.core))
      (fun s hs hP => hs.round tbl fresh hpresents hP) n _ hstart halong
    unfold session
    unfold ipConvert at hrest ⊢
    generalize rounds (round tbl fresh (q.buffer file pos)) n
      (⟨c.g, q.inAvail.getD 0, 0, pos, 0, c.log⟩, openOut q.output) = x at hcall hrest ⊢
    cases x with
    | inl s => exact hcall.delivered
    | inr e =>
      obtain ⟨hdelivered, hgoes⟩ := hcall
      obtain ⟨⟨fatal, d⟩, o⟩ := e
      cases fatal with
      | true => exact hdelivered
      | false =>
        have hstep : InStep file d := hgoes rfl
        show Delivered file (if (exitLoop (⟨false, d⟩, o)).status = ipFatalError then d.log
          else session tbl fresh n file d.g _ d.log qs)
        split
        · exact hdelivered
        · rename_i hstatus
          exact ih hstep (hrest hstatus)

/-- **Every byte that the first transform sees is the one it asked for**, in a session whose
rounds all meet the condition. -/
theorem session_delivered (tbl : Nat → XformTbl σ) (fresh : Bytes) (n : Nat) (g : Inst σ)
    (qs : List Request) (hopened : Opened g)
    (hmeets : SessionMeets tbl fresh n file g 0 [] qs) :
    Delivered file (session tbl fresh n file g 0 [] qs) := by
  have hstart : InStep file (⟨g, 0, 0, 0, 0, []⟩ : Core σ) := by
    refine ⟨trivial, ⟨fun k hk => ?_, ?_⟩, ?_, fun _ => ⟨rfl, hopened.filePos, hopened.validLen⟩,
      fun htaking => ?_⟩
    · rw [hopened.validLen] at hk
      exact absurd hk (Nat.not_lt_zero k)
    · rw [hopened.validLen, hopened.validStart]
      exact Nat.zero_le _
    · rw [hopened.iOwner]
      exact (Option.some_ne_none 0).symm
    · rcases htaking with h | h | h <;> exact absurd (hopened.unborn.symm.trans h) (by decide)
  exact session_inStep tbl fresh n qs hstart hmeets

/-- A transform with a header of one byte, which wants `next` after it, and then takes bytes
one by one. -/
def seeker (next : UInt32) : XformTbl UInt32 where
  openXform := (ipDone, 0)
  setDefaultInputTraits := fun s _ => (ipDone, s)
  setXformSpec := fun s => (ipDone, s)
  getHeaderBufSize := fun s => (ipDone, 1, s)
  getActualTraits := fun _ _ _ inTraits outTraits =>
    ⟨ipDone ||| ipReadyForData, 1, next, inTraits, outTraits, next⟩
  getActualBufSizes := fun s => (1, 1, s)
  convert := fun s _ _ _ outBuf => ⟨ipReadyForData, 1, s + 1, 0, 0, outBuf, s + 1⟩
  newPage := fun s => s

def count : UInt32 → UInt8 := fun p => UInt8.ofNat p.toNat

/-- Buffers of one byte: a seek to position 9 after the header is all right. -/
theorem session_delivered_one : Delivered count (session (fun _ => seeker 9) (fun _ => 0) 4 count
    (ipOpen 1 0) 0 [] [⟨some 1, none⟩, ⟨some 1, none⟩]) :=
  session_delivered _ _ _ _ _ ⟨rfl, rfl, rfl, rfl, rfl⟩ (by decide +kernel)

instance (before : List Call) (call : Call) : Decidable (SeesFile file before call) :=
  match h : call.inBuf with
  | none => isTrue fun _ _ hbuf => absurd (h.symm.trans hbuf) (by simp)
  | some buf =>
    decidable_of_iff (call.iXform = 0 → ∀ k < call.inAvail,
      buf k = file (asked before + UInt32.ofNat k)) (by simp [SeesFile, h])

instance (log : List Call) : Decidable (Delivered file log) := by
  unfold Delivered
  infer_instance

/-- A buffer of two bytes: the second one, at position 1, is delivered as if it were at 9. -/
theorem not_delivered_seek : ¬ Delivered count (session (fun _ => seeker 9) (fun _ => 0) 4 count
    (ipOpen 1 0) 0 [] [⟨some 2, none⟩]) := by
  decide +kernel

end Hplip.Ip
