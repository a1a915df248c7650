import Hplip.Ip.Rounds

/-!
# Discarding the output (ipmain.c)

With no output buffer `ipConvert` lets both out-parameters of the output point to one
local variable, so that the bytes written in a call and the position they start at are
one number. A round of the main loop is the same as with a buffer only where the sum of
the two happens to be the position of the output genbuf for both.
-/

namespace Hplip.Ip

open Loop

variable {σ : Type} {tbl : Nat → XformTbl σ} {fresh : Bytes} {input : Option Bytes}

/-! ## The condition -/

def LargeEnough (s : Core σ × Out) : Prop := s.1.g.gbOut.dwValidLen ≤ s.2.avail

/-- What is to be written in a call that found the output genbuf at `f₀`: its first piece
is at twice that position, and a further one is neither behind what was written nor that
much further. -/
def OutputAgrees (f₀ : UInt32) (s : Core σ × Out) : Prop :=
  s.1.g.gbOut.dwValidLen ≠ 0 →
    if s.2.used = 0 then
      s.1.g.gbOut.dwFilePos = f₀ + f₀ ∧ s.1.g.gbOut.dwValidLen ≤ 0xfffffff ∧
        f₀ + UInt32.ofNat s.1.g.gbOut.dwValidLen ≠ 0
    else
      s.1.g.gbOut.dwFilePos ≠ f₀ + f₀ + s.2.used ∧
        s.1.g.gbOut.dwFilePos ≠ f₀ + f₀ + s.2.used + s.2.used

instance (s : Core σ × Out) : Decidable (LargeEnough s) := by
  unfold LargeEnough
  infer_instance

instance (f₀ : UInt32) (s : Core σ × Out) : Decidable (OutputAgrees f₀ s) := by
  unfold OutputAgrees
  infer_instance

/-! ## One round -/

/-- The out-parameters of a call with a buffer, and those of the same call without one. -/
inductive OutMatches (f₀ : UInt32) (b : GenBuf) (o o' : Out) : Prop
  | nothing : o.used = 0 → o'.avail = 0xfffffff → (b.dwValidLen = 0 → b.dwFilePos = f₀) →
      (o'.used = f₀ ∨ (o'.used = 0 ∧ b.dwFilePos = f₀)) → OutMatches f₀ b o o'
  | written : o.used ≠ 0 → o.thisPos = f₀ + f₀ → o'.used = f₀ + o.used → o'.used ≠ 0 →
      OutMatches f₀ b o o'

structure Matches (f₀ : UInt32) (s t : Core σ × Out) : Prop where
  core : t.1 = s.1
  buffered : s.2.discard = false
  discards : t.2.discard = true
  shared : t.2.thisPos = t.2.used
  outs : OutMatches f₀ s.1.g.gbOut s.2 t.2

theorem uint32_ofNat_ne_zero {n : Nat} (hpos : n ≠ 0) (hle : n ≤ 0xfffffff) :
    UInt32.ofNat n ≠ 0 := by
  intro h
  have hlt : n < UInt32.size := Nat.lt_of_le_of_lt hle (by decide)
  have hnat : (UInt32.ofNat n).toNat = 0 := by rw [h, UInt32.toNat_zero]
  rw [UInt32.toNat_ofNat_of_lt' hlt] at hnat
  exact hpos hnat

/-! ### Emptying the genbuf -/

theorem emptyOut_of_empty {b : GenBuf} {o : Out} (h : b.dwValidLen = 0) :
    emptyOut b o = (true, b, o.refresh b) := by
  rw [emptyOut]
  dsimp only
  rw [if_neg (not_not.mpr h)]

theorem emptyOut_of_seek {b : GenBuf} {o : Out} (h : b.dwValidLen ≠ 0)
    (hseek : (o.refresh b).thisPos + (o.refresh b).used ≠ b.dwFilePos) :
    emptyOut b o = (false, b, o.refresh b) := by
  rw [emptyOut]
  dsimp only
  rw [if_pos h, if_pos hseek]

def emptied (b : GenBuf) : GenBuf :=
  { b with
    dwValidStart := 0
    dwFilePos := b.dwFilePos + UInt32.ofNat b.dwValidLen
    dwValidLen := 0 }

theorem emptyOut_of_fits {b : GenBuf} {o : Out} (h : b.dwValidLen ≠ 0)
    (hplace : (o.refresh b).thisPos + (o.refresh b).used = b.dwFilePos)
    (hfits : b.dwValidLen ≤ (o.refresh b).avail) :
    emptyOut b o = (true, emptied b, (o.refresh b).write b b.dwValidLen) := by
  rw [emptyOut]
  dsimp only
  rw [if_pos h, if_neg (not_not.mpr hplace), Nat.min_eq_left hfits, Nat.sub_self,
    if_neg (not_not.mpr rfl)]
  rfl

/-- At the top of a round that goes on with a genbuf at `p`. -/
inductive OutSettled (f₀ p : UInt32) (o o' : Out) : Prop
  | nothing : o.used = 0 → o'.avail = 0xfffffff → p = f₀ → o'.used = f₀ → OutSettled f₀ p o o'
  | written : o.used ≠ 0 → o.thisPos = f₀ + f₀ → o'.used = f₀ + o.used → o'.used ≠ 0 →
      OutSettled f₀ p o o'

theorem emptyOut_matches {f₀ : UInt32} {s t : Core σ × Out} (h : Matches f₀ s t)
    (hlarge : LargeEnough s) (hagrees : OutputAgrees f₀ s) :
    ∃ flag b o o', emptyOut s.1.g.gbOut s.2 = (flag, b, o) ∧
      emptyOut s.1.g.gbOut t.2 = (flag, b, o') ∧
      (flag = true → b.dwValidLen = 0 ∧ o.discard = false ∧ o'.discard = true ∧
        o'.thisPos = o'.used ∧ OutSettled f₀ b.dwFilePos o o') := by
  obtain ⟨-, hbuffered, hdiscards, hshared, houts⟩ := h
  unfold LargeEnough at hlarge
  unfold OutputAgrees at hagrees
  generalize s.1.g.gbOut = b at *
  generalize s.2 = o at *
  generalize t.2 = o' at *
  obtain ⟨discard, avail, used, thisPos, buf⟩ := o
  obtain ⟨discard', avail', used', thisPos', buf'⟩ := o'
  cases hbuffered
  cases hdiscards
  cases hshared
  cases houts with
  | nothing hused havail hpos hstart =>
    obtain rfl : used = 0 := hused
    obtain rfl : avail' = 0xfffffff := havail
    have hrefresh : Out.refresh b ⟨false, avail, 0, thisPos, buf⟩
        = ⟨false, avail, 0, b.dwFilePos, buf⟩ := rfl
    -- the local is at the position that the call found
    have hrefresh' : Out.refresh b ⟨true, 0xfffffff, used', used', buf'⟩
        = ⟨true, 0xfffffff, f₀, f₀, buf'⟩ := by
      have hstart : used' = f₀ ∨ (used' = 0 ∧ b.dwFilePos = f₀) := hstart
      by_cases hzero : used' = 0
      · have hfile : b.dwFilePos = f₀ := by
          rcases hstart with hf₀ | ⟨-, hfile⟩
          · by_cases hempty : b.dwValidLen = 0
            · exact hpos hempty
            · rw [(hagrees hempty).1, ← hf₀, hzero, UInt32.add_zero]
          · exact hfile
        rw [hzero, ← hfile]
        rfl
      · obtain rfl : used' = f₀ := hstart.resolve_right fun h => hzero h.1
        exact if_neg hzero
    by_cases hempty : b.dwValidLen = 0
    · refine ⟨true, b, _, _, emptyOut_of_empty hempty, emptyOut_of_empty hempty, fun _ => ?_⟩
      rw [hrefresh, hrefresh']
      exact ⟨hempty, rfl, rfl, rfl, .nothing rfl rfl (hpos hempty) rfl⟩
    · obtain ⟨hplace, hshort, hsum⟩ := hagrees hempty
      refine ⟨true, emptied b, _, _, emptyOut_of_fits hempty ?_ ?_, emptyOut_of_fits hempty ?_ ?_,
        fun _ => ?_⟩
      · rw [hrefresh]
        exact UInt32.add_zero _
      · rw [hrefresh]
        exact hlarge
      · rw [hrefresh', hplace]
      · rw [hrefresh']
        exact hshort
      · rw [hrefresh, hrefresh']
        have hn := uint32_ofNat_ne_zero hempty hshort
        have hfirst : (0 : UInt32) + UInt32.ofNat b.dwValidLen = UInt32.ofNat b.dwValidLen :=
          UInt32.zero_add _
        refine ⟨rfl, rfl, rfl, rfl, .written ?_ hplace ?_ hsum⟩
        · exact fun h => hn (hfirst.symm.trans h)
        · show f₀ + UInt32.ofNat b.dwValidLen = f₀ + (0 + UInt32.ofNat b.dwValidLen)
          rw [hfirst]
  | written hused hthis hsum hne =>
    have hrefresh : Out.refresh b ⟨false, avail, used, thisPos, buf⟩
        = ⟨false, avail, used, thisPos, buf⟩ := if_neg hused
    have hrefresh' : Out.refresh b ⟨true, avail', used', used', buf'⟩
        = ⟨true, avail', used', used', buf'⟩ := if_neg hne
    by_cases hempty : b.dwValidLen = 0
    · refine ⟨true, b, _, _, emptyOut_of_empty hempty, emptyOut_of_empty hempty, fun _ => ?_⟩
      rw [hrefresh, hrefresh']
      exact ⟨hempty, rfl, rfl, rfl, .written hused hthis hsum hne⟩
    · -- neither run writes: both see a seek
      obtain ⟨hseek, hseek'⟩ : b.dwFilePos ≠ f₀ + f₀ + used ∧
          b.dwFilePos ≠ f₀ + f₀ + used + used := by
        have hboth := hagrees hempty
        rwa [if_neg hused] at hboth
      refine ⟨false, b, _, _, emptyOut_of_seek hempty ?_, emptyOut_of_seek hempty ?_,
        fun h => absurd h (by decide)⟩
      · rw [hrefresh]
        show thisPos + used ≠ b.dwFilePos
        rw [show thisPos = f₀ + f₀ from hthis]
        exact hseek.symm
      · rw [hrefresh']
        show used' + used' ≠ b.dwFilePos
        rw [show used' = f₀ + used from hsum]
        intro h
        exact hseek' (h.symm.trans (by ac_rfl))

/-! ### The whole round -/

def LeftAlike (e e' : Leave σ × Out) : Prop := e'.1 = e.1

/-- **Where the sums agree the two runs stay together.** -/
theorem round_matches (tbl : Nat → XformTbl σ) (fresh : Bytes) (input : Option Bytes)
    {f₀ : UInt32} {s t : Core σ × Out} (h : Matches f₀ s t)
    (hlarge : LargeEnough s) (hagrees : OutputAgrees f₀ s) :
    Sum.LiftRel (Matches f₀) LeftAlike (round tbl fresh input s) (round tbl fresh input t) := by
  obtain ⟨flag, b, o, o', hs, ht, hout⟩ := emptyOut_matches h hlarge hagrees
  have hcore := h.core
  unfold round writeOut
  rw [hcore, hs, ht]
  cases flag with
  | false => exact .inr rfl
  | true =>
    obtain ⟨hempty, hbuffered, hdiscards, hshared, hsettled⟩ := hout rfl
    dsimp only
    generalize hc : insertOk { s.1 with g := { s.1.g with gbOut := b } } = c
    have hgbOut : c.g.gbOut = b := by
      rw [← hc]
      unfold insertOk
      split <;> rfl
    have hstays := process_gbOut tbl fresh input c
    cases hprocess : process tbl fresh input c with
    | error e => exact .inr rfl
    | ok c' =>
      rw [hprocess] at hstays
      rw [hgbOut] at hstays
      refine .inl ⟨rfl, hbuffered, hdiscards, hshared, ?_⟩
      cases hsettled with
      | nothing hused havail hpos hstart =>
        exact .nothing hused havail (fun h₀ => (hstays h₀).trans hpos) (.inl hstart)
      | written hused hthis hsum hne => exact .written hused hthis hsum hne

/-! ## Calls -/

structure Feed where
  inAvail : Nat
  input : Option Bytes
  outBuf : Bytes
  outAvail : Nat

/-- What the client sees of a call, and the calls of transforms that it made; `status` is
missing while it goes on. -/
structure Answer where
  status : Option UInt16
  inUsed : Nat
  inNextPos : UInt32
  log : List Call

/-- The calls of a client, each up to `n` rounds, with a buffer or without one. -/
def drive (tbl : Nat → XformTbl σ) (fresh : Bytes) (n : Nat) (buffered : Bool) :
    Inst σ → UInt32 → List Feed → List Answer
  | _, _, [] => []
  | g, pos, f :: fs =>
    let output := if buffered then some (f.outBuf, f.outAvail) else none
    match ipConvert tbl fresh f.input n g [] f.inAvail pos output with
    | .inl c => [⟨none, c.inUsed, c.inNextPos, c.log⟩]
    | .inr r =>
      ⟨some r.status, r.inUsed, r.inNextPos, r.log⟩ :: drive tbl fresh n buffered r.g r.inNextPos fs

/-- In every call with a buffer, it is always large enough, and the sums agree. -/
def DriveAgrees (tbl : Nat → XformTbl σ) (fresh : Bytes) (n : Nat) :
    Inst σ → UInt32 → List Feed → Prop
  | _, _, [] => True
  | g, pos, f :: fs =>
    Along (round tbl fresh f.input) (fun s => LargeEnough s ∧ OutputAgrees g.gbOut.dwFilePos s) n
      (⟨g, f.inAvail, 0, pos, 0, []⟩, openOut (some (f.outBuf, f.outAvail))) ∧
    match ipConvert tbl fresh f.input n g [] f.inAvail pos (some (f.outBuf, f.outAvail)) with
    | .inl _ => True
    | .inr r => DriveAgrees tbl fresh n r.g r.inNextPos fs

instance DriveAgrees.decidable (tbl : Nat → XformTbl σ) (fresh : Bytes) (n : Nat) :
    ∀ (g : Inst σ) (pos : UInt32) (fs : List Feed), Decidable (DriveAgrees tbl fresh n g pos fs)
  | _, _, [] => isTrue trivial
  | g, pos, f :: fs =>
    match h : ipConvert tbl fresh f.input n g [] f.inAvail pos (some (f.outBuf, f.outAvail)) with
    | .inl _ => decidable_of_iff (Along _ _ _ _) (by rw [DriveAgrees, h, and_true])
    | .inr r =>
      have := DriveAgrees.decidable tbl fresh n r.g r.inNextPos fs
      decidable_of_iff (Along _ _ _ _ ∧ DriveAgrees tbl fresh n r.g r.inNextPos fs)
        (by rw [DriveAgrees, h])

theorem matches_start (g : Inst σ) (f : Feed) (pos : UInt32) :
    Matches g.gbOut.dwFilePos
      (⟨g, f.inAvail, 0, pos, 0, []⟩, openOut (some (f.outBuf, f.outAvail)))
      (⟨g, f.inAvail, 0, pos, 0, []⟩, openOut none) :=
  ⟨rfl, rfl, rfl, rfl, .nothing rfl rfl (fun _ => rfl) (.inr ⟨rfl, rfl⟩)⟩

structure Alike (r r' : Result σ) : Prop where
  status : r'.status = r.status
  g : r'.g = r.g
  inUsed : r'.inUsed = r.inUsed
  inNextPos : r'.inNextPos = r.inNextPos
  log : r'.log = r.log

theorem exitLoop_alike {e e' : Leave σ × Out} (h : LeftAlike e e') :
    Alike (exitLoop e) (exitLoop e') := by
  obtain ⟨e, o⟩ := e
  obtain ⟨e', o'⟩ := e'
  obtain rfl : e' = e := h
  unfold exitLoop
  dsimp only
  split <;> exact ⟨rfl, rfl, rfl, rfl, rfl⟩

theorem ipConvert_alike (tbl : Nat → XformTbl σ) (fresh : Bytes) (n : Nat) (g : Inst σ)
    (pos : UInt32) (f : Feed)
    (h : Along (round tbl fresh f.input) (fun s => LargeEnough s ∧ OutputAgrees g.gbOut.dwFilePos s)
      n (⟨g, f.inAvail, 0, pos, 0, []⟩, openOut (some (f.outBuf, f.outAvail)))) :
    Sum.LiftRel (fun c c' => c' = c) Alike
      (ipConvert tbl fresh f.input n g [] f.inAvail pos (some (f.outBuf, f.outAvail)))
      (ipConvert tbl fresh f.input n g [] f.inAvail pos none) := by
  have hcall := rounds_simulates (Matches g.gbOut.dwFilePos) LeftAlike
    (fun s t hst hmeets => round_matches tbl fresh f.input hst hmeets.1 hmeets.2) n _ _ (matches_start g f pos) h
  unfold ipConvert
  generalize rounds (round tbl fresh f.input) n (⟨g, f.inAvail, 0, pos, 0, []⟩,
    openOut (some (f.outBuf, f.outAvail))) = x at hcall
  generalize rounds (round tbl fresh f.input) n
    (⟨g, f.inAvail, 0, pos, 0, []⟩, openOut none) = y at hcall
  cases hcall with
  | inl hmatches => exact .inl hmatches.core
  | inr halike => exact .inr (exitLoop_alike halike)

/-- **Discarding the output changes nothing** in a run whose rounds all meet the
condition: the same calls of transforms, the same input consumed, the same status. -/
theorem drive_discard_eq (tbl : Nat → XformTbl σ) (fresh : Bytes) (n : Nat) (g : Inst σ)
    (pos : UInt32) (fs : List Feed) (h : DriveAgrees tbl fresh n g pos fs) :
    drive tbl fresh n false g pos fs = drive tbl fresh n true g pos fs := by
  induction fs generalizing g pos with
  | nil => rfl
  | cons f fs ih =>
    obtain ⟨halong, hrest⟩ := h
    have hcall := ipConvert_alike tbl fresh n g pos f halong
    rw [drive, drive]
    rw [if_neg Bool.false_ne_true, if_pos rfl]
    generalize ipConvert tbl fresh f.input n g [] f.inAvail pos (some (f.outBuf, f.outAvail)) = x
      at hcall hrest
    generalize ipConvert tbl fresh f.input n g [] f.inAvail pos none = y at hcall
    cases hcall with
    | inl hsame => rw [hsame]
    | inr halike =>
      obtain ⟨hstatus, hg, hused, hnext, hlog⟩ := halike
      dsimp only
      rw [hstatus, hg, hused, hnext, hlog, ih _ _ hrest]

/-! ## Where it goes wrong -/

theorem round_stuck (tbl : Nat → XformTbl σ) (fresh : Bytes) (input : Option Bytes) {c : Core σ}
    {o : Out} (hdiscards : o.discard = true) (hused : o.used = 0)
    (hvalid : c.g.gbOut.dwValidLen ≠ 0) (hpos : c.g.gbOut.dwFilePos ≠ 0) :
    ∃ o', round tbl fresh input (c, o) = .inr (⟨false, c⟩, o') := by
  have hseek : (o.refresh c.g.gbOut).thisPos + (o.refresh c.g.gbOut).used ≠ c.g.gbOut.dwFilePos := by
    unfold Out.refresh Out.setThisPos
    rw [if_pos hused, if_pos hdiscards]
    intro h
    refine hpos (UInt32.toNat_inj.mp ?_)
    have hnat : (c.g.gbOut.dwFilePos + c.g.gbOut.dwFilePos).toNat = c.g.gbOut.dwFilePos.toNat :=
      congrArg UInt32.toNat h
    rw [UInt32.toNat_add] at hnat
    have hlt := c.g.gbOut.dwFilePos.toNat_lt
    rw [UInt32.toNat_zero]
    lia
  have hempty := emptyOut_of_seek hvalid hseek
  unfold round writeOut
  dsimp only
  rw [hempty]
  exact ⟨_, rfl⟩

/-- **No call gets past it**: however often the client calls, no transform is called, no
input is consumed, and nothing but the parsed header is reported. -/
theorem drive_stuck (tbl : Nat → XformTbl σ) (fresh : Bytes) {n : Nat} {g : Inst σ}
    (pos : UInt32) (fs : List Feed) (hn : n ≠ 0)
    (hvalid : g.gbOut.dwValidLen ≠ 0) (hpos : g.gbOut.dwFilePos ≠ 0) :
    ∀ a ∈ drive tbl fresh n false g pos fs, a.log = [] ∧ a.inUsed = 0 ∧
      (a.status = some 0 ∨ a.status = some (ipParsedHeader &&& g.wResultMask)) := by
  induction fs generalizing pos with
  | nil => exact fun a ha => absurd ha List.not_mem_nil
  | cons f fs ih =>
    obtain ⟨n, rfl⟩ := Nat.exists_eq_succ_of_ne_zero hn
    obtain ⟨o', hround⟩ := round_stuck tbl fresh f.input
      (c := ⟨g, f.inAvail, 0, pos, 0, []⟩) (o := openOut none) rfl rfl hvalid hpos
    have hcall : ipConvert tbl fresh f.input (n + 1) g [] f.inAvail pos none
        = .inr (exitLoop (⟨false, ⟨g, f.inAvail, 0, pos, 0, []⟩⟩, o')) := by
      unfold ipConvert
      rw [rounds, hround]
      rfl
    rw [drive, if_neg Bool.false_ne_true]
    rw [hcall]
    intro a ha
    rcases List.mem_cons.mp ha with rfl | ha
    · refine ⟨rfl, rfl, ?_⟩
      show some (_ &&& _) = _ ∨ some (_ &&& _) = _
      split
      · right
        show some ((0 ||| ipParsedHeader) &&& g.wResultMask) = _
        rw [UInt16.zero_or]
      · exact .inl (congrArg some UInt16.zero_and)
    · exact ih _ a ha

/-- A transform that writes `total` bytes, one in a call, from position 0 on. -/
def writer (total : Nat) : XformTbl Nat where
  openXform := (ipDone, 0)
  setDefaultInputTraits := fun s _ => (ipDone, s)
  setXformSpec := fun s => (ipDone, s)
  getHeaderBufSize := fun s => (ipDone, 0, s)
  getActualTraits := fun s _ _ inTraits outTraits => ⟨ipDone, 0, 0, inTraits, outTraits, s⟩
  getActualBufSizes := fun s => (1, 1, s)
  convert := fun s _ _ _ outBuf =>
    if s < total then ⟨0, 0, 0, 1, UInt32.ofNat s, fun _ => 0x41, s + 1⟩
    else ⟨ipDone, 0, 0, 0, UInt32.ofNat s, outBuf, s⟩
  newPage := fun s => s

def oneByte : Feed := ⟨1, some fun _ => 0, fun _ => 0, 100⟩

/-- One byte at position 0. -/
theorem drive_discard_eq_one :
    drive (fun _ => writer 1) (fun _ => 0) 8 false (ipOpen 1 0) 0 [oneByte]
      = drive (fun _ => writer 1) (fun _ => 0) 8 true (ipOpen 1 0) 0 [oneByte] :=
  drive_discard_eq _ _ _ _ _ _ (by decide +kernel)

/-- The calls of transforms that a client sees, and the status of each call. -/
def seen (answers : List Answer) : List (Option UInt16 × Nat) :=
  answers.map fun a => (a.status, a.log.length)

def twoBytes : Core Nat ⊕ Result Nat :=
  ipConvert (fun _ => writer 2) (fun _ => 0) oneByte.input 8 (ipOpen 1 0) [] 1 0 none

theorem twoBytes_returns : twoBytes.isRight := by decide +kernel

/-- Two bytes: with a buffer one call does it all; without one the first call ends before
the second byte, and no later one makes any progress. -/
theorem discard_stuck_two :
    seen (drive (fun _ => writer 2) (fun _ => 0) 8 true (ipOpen 1 0) 0 [oneByte])
      = [(some ipDone, 4)] ∧
    ∀ k, ∃ answers, seen (drive (fun _ => writer 2) (fun _ => 0) 8 false (ipOpen 1 0) 0
        (oneByte :: List.replicate k oneByte)) = (some 0, 3) :: seen answers ∧
      ∀ a ∈ answers, a.log = [] ∧ a.inUsed = 0 ∧ a.status = some 0 := by
  refine ⟨by decide +kernel, fun k => ?_⟩
  obtain ⟨r, hr⟩ : ∃ r, r = twoBytes.getRight twoBytes_returns := ⟨_, rfl⟩
  have hcall : twoBytes = .inr r := by rw [hr, Sum.inr_getRight]
  have hfirst : r.status = 0 ∧ r.log.length = 3 := by rw [hr]; decide +kernel
  have hmask : r.g.wResultMask = permanentResults := by rw [hr]; decide +kernel
  have hvalid : r.g.gbOut.dwValidLen ≠ 0 := by rw [hr]; decide +kernel
  have hpos : r.g.gbOut.dwFilePos ≠ 0 := by rw [hr]; decide +kernel
  have hstuck := drive_stuck (fun _ => writer 2) (fun _ => 0) r.inNextPos (List.replicate k oneByte)
    (show 8 ≠ 0 by decide) hvalid hpos
  refine ⟨drive (fun _ => writer 2) (fun _ => 0) 8 false r.g r.inNextPos
    (List.replicate k oneByte), ?_, fun a ha => ?_⟩
  · rw [drive, if_neg Bool.false_ne_true]
    have hcall' : ipConvert (fun _ => writer 2) (fun _ => 0) oneByte.input 8 (ipOpen 1 0) []
        oneByte.inAvail 0 none = .inr r := hcall
    rw [hcall']
    show (some r.status, r.log.length) :: _ = _
    rw [hfirst.1, hfirst.2]
    rfl
  · obtain ⟨hlog, hused, hstatus⟩ := hstuck a ha
    refine ⟨hlog, hused, ?_⟩
    rcases hstatus with h | h
    · exact h
    · rw [h, hmask]
      rfl

end Hplip.Ip
