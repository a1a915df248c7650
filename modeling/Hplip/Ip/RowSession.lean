import Mathlib
import Hplip.Ip.Discard
import Hplip.Ip.RowRounds

/-!
# A job of row transforms (ipmain.c)

The client gives the image in pieces of any size, takes the output in pieces of any size, and
then calls with a `NULL` input until it is told that the job is done.
-/

namespace Hplip.Ip

open Loop

variable {σ : Type} {rows : Nat} {X : Nat → RowXform σ rows} {n : Nat} {img : List UInt8}
  {fed k i m d : Nat} {got₀ got : List UInt8} {avail₀ : Nat}

/-! ## The output of a call -/

/-- What a call has written: the client had `got₀` before it, and has `got` then. -/
structure Writes (got₀ got : List UInt8) (avail₀ : Nat) (o : Out) : Prop where
  kept : o.discard = false
  room : o.used.toNat + o.avail = avail₀
  bytes : got = got₀ ++ slice o.buf 0 o.used.toNat
  place : o.used ≠ 0 → o.thisPos + o.used = UInt32.ofNat got.length

theorem writes_openOut (got : List UInt8) (buf : Bytes) (avail : Nat) :
    Writes got got avail (openOut (some (buf, avail))) :=
  ⟨rfl, Nat.zero_add avail, (List.append_nil got).symm, fun h => absurd rfl h⟩

theorem Writes.refresh {b : GenBuf} {o : Out} (h : Writes got₀ got avail₀ o)
    (hpos : b.dwValidLen ≠ 0 → b.dwFilePos = UInt32.ofNat got.length) :
    Writes got₀ got avail₀ (o.refresh b) ∧ (o.refresh b).avail = o.avail
      ∧ (b.dwValidLen ≠ 0 → (o.refresh b).thisPos + (o.refresh b).used = b.dwFilePos) := by
  have hkept := h.kept
  rw [Out.refresh]
  by_cases hused : o.used = 0
  · rw [if_pos hused, Out.setThisPos, if_neg (by rw [hkept]; decide)]
    refine ⟨⟨hkept, h.room, h.bytes, fun hne => absurd hused hne⟩, rfl, fun _ => ?_⟩
    show b.dwFilePos + o.used = b.dwFilePos
    rw [hused, UInt32.add_zero]
  · rw [if_neg hused]
    refine ⟨h, rfl, fun hne => ?_⟩
    rw [h.place hused, hpos hne]

theorem Writes.write {b : GenBuf} {o : Out} {count : Nat} (h : Writes got₀ got avail₀ o)
    (havail : avail₀ < 2 ^ 32) (hcount : count ≤ o.avail)
    (hplace : o.thisPos + o.used = UInt32.ofNat got.length) :
    Writes got₀ (got ++ slice b.pbBuf b.dwValidStart count) avail₀ (o.write b count) := by
  have hroom := h.room
  have hkept := h.kept
  have hused : (o.used + UInt32.ofNat count).toNat = o.used.toNat + count := by
    rw [UInt32.toNat_add, UInt32.toNat_ofNat', Nat.add_mod_mod]
    exact Nat.mod_eq_of_lt (by lia)
  rw [Out.write, Out.setUsed, if_neg (by show ¬ o.discard = true; rw [hkept]; decide),
    if_neg (by rw [hkept]; decide)]
  refine ⟨hkept, ?_, ?_, fun _ => ?_⟩
  · show (o.used + UInt32.ofNat count).toNat + (o.avail - count) = avail₀
    lia
  · show got ++ slice b.pbBuf b.dwValidStart count = got₀ ++ slice (blit o.buf o.used.toNat
      (fun j => b.pbBuf (b.dwValidStart + j)) count) 0 (o.used + UInt32.ofNat count).toNat
    rw [hused, slice_add, Nat.zero_add, slice_blit_of_disjoint (.inl (Nat.le_of_eq (Nat.zero_add _))),
      slice_blit_self, ← List.append_assoc, ← h.bytes]
    refine congrArg (got ++ ·) (slice_congr fun j _ => ?_)
    rw [Nat.zero_add]
  · show o.thisPos + (o.used + UInt32.ofNat count) = _
    rw [← UInt32.add_assoc, hplace, List.length_append, slice_length, UInt32.ofNat_add]

theorem write_avail (b : GenBuf) (o : Out) (count : Nat) : (o.write b count).avail = o.avail - count := by
  rw [Out.write, Out.setUsed]
  split
  · rfl
  · rfl

theorem emptyOut_row {b : GenBuf} {o : Out} (h : Writes got₀ got avail₀ o)
    (ht : Tail X n img b got k i m) (havail : avail₀ < 2 ^ 32) :
    ∃ flag b' o' got', emptyOut b o = (flag, b', o') ∧ Writes got₀ got' avail₀ o'
      ∧ Tail X n img b' got' k i m ∧ (flag = true → b'.dwValidLen = 0)
      ∧ (flag = false → o'.avail = 0) := by
  obtain ⟨hw, hsame, hplace⟩ := h.refresh ht.filePos
  by_cases hempty : b.dwValidLen = 0
  · exact ⟨true, b, o.refresh b, got, emptyOut_of_empty hempty, hw, ht, fun _ => hempty,
      (by rintro ⟨⟩)⟩
  have hfile := hplace hempty
  obtain ⟨count, hcount⟩ : ∃ count, count = min b.dwValidLen (o.refresh b).avail := ⟨_, rfl⟩
  have hle : count ≤ b.dwValidLen := hcount ▸ min_le_left _ _
  have hfits : count ≤ (o.refresh b).avail := hcount ▸ min_le_right _ _
  have hwrite := hw.write (b := b) havail hfits (by rw [hfile, ht.filePos hempty])
  have hbytes : (got ++ slice b.pbBuf b.dwValidStart count)
      ++ slice b.pbBuf (b.dwValidStart + count) (b.dwValidLen - count)
      = given X img (n - 1) (passed k i (n - 1)) := by
    rw [List.append_assoc, ← slice_add, Nat.add_sub_cancel' hle]
    exact ht.bytes
  have hpos : b.dwFilePos + UInt32.ofNat count
      = UInt32.ofNat (got ++ slice b.pbBuf b.dwValidStart count).length := by
    rw [ht.filePos hempty, List.length_append, slice_length, UInt32.ofNat_add]
  rw [emptyOut]
  dsimp only
  rw [if_pos hempty, if_neg (not_not.mpr hfile), ← hcount]
  by_cases hrest : b.dwValidLen - count ≠ 0
  · rw [if_pos hrest]
    refine ⟨_, _, _, _, rfl, hwrite, ⟨hbytes, fun _ => hpos, ht.fits⟩, (by rintro ⟨⟩), fun _ => ?_⟩
    rw [write_avail]
    lia
  · rw [if_neg hrest]
    have hzero : b.dwValidLen - count = 0 := not_not.mp hrest
    refine ⟨_, _, _, _, rfl, hwrite, ⟨?_, fun hne => absurd hzero hne, ht.fits⟩,
        fun _ => hzero, (by rintro ⟨⟩)⟩
    rw [hzero, slice_zero] at hbytes
    show _ ++ slice b.pbBuf 0 (b.dwValidLen - count) = _
    rw [hzero, slice_zero]
    exact hbytes

/-! ## A call -/

/-- A job in the middle of a call, which found the client at `fed₀` and `got₀` and the job at
`w₀`. -/
structure Going (X : Nat → RowXform σ rows) (n : Nat) (img : List UInt8) (input : Option Bytes)
    (fed₀ : Nat) (got₀ : List UInt8) (avail₀ w₀ fed : Nat) (got : List UInt8) (k i m d : Nat)
    (s : Core σ × Out) : Prop where
  flow : Flow X n img s.1.g fed got k i m d
  offers : Offers img input fed s.1
  used : fed₀ + s.1.inUsed = fed
  calm : Calm s.1.ipResult
  writes : Writes got₀ got avail₀ s.2
  since : w₀ ≤ work n k i m d
  tells : s.1.ipResult ≠ 0 → w₀ < work n k i m d
  ending : input ≠ none → d = 0

/-- How a call ends: the job goes on with the next one, and a call with a `NULL` input has made
a step or written something, or all is done and the client has all. -/
inductive CallEnds (X : Nat → RowXform σ rows) (n : Nat) (img : List UInt8) (input : Option Bytes)
    (fed₀ : Nat) (got₀ : List UInt8) (avail₀ w₀ : Nat) (e : Leave σ × Out) : Prop
  | goes {fed k i m d : Nat} {got : List UInt8} (fatal : e.1.fatal = false)
    (flow : Flow X n img e.1.core.g fed got k i m d) (used : fed₀ + e.1.core.inUsed = fed)
    (calm : Calm e.1.core.ipResult) (writes : Writes got₀ got avail₀ e.2)
    (progress : input = none → w₀ + got₀.length < work n k i m d + got.length)
    (ending : input ≠ none → d = 0)
  | done {c : Core σ} {got : List UInt8} (left : e.1 = ⟨false, allDone c⟩) (calm : Calm c.ipResult)
    (writes : Writes got₀ got avail₀ e.2) (all : got = given X img (n - 1) rows)
    (lInRows : c.g.lInRows = rows) (lOutRows : c.g.lOutRows = rows)
    (mask : c.g.wResultMask &&& permanentResults = permanentResults) (last : input = none)

section Call

variable {fresh : Bytes} {input : Option Bytes} {s : Core σ × Out} {fed₀ w₀ : Nat}

theorem Writes.length_le {o : Out} (h : Writes got₀ got avail₀ o) : got₀.length ≤ got.length := by
  rw [h.bytes, List.length_append]
  exact Nat.le_add_right _ _

theorem Going.writeOut (h : Going X n img input fed₀ got₀ avail₀ w₀ fed got k i m d s)
    (havail : avail₀ < 2 ^ 32) :
    ∃ flag s' got', writeOut s = (flag, s')
      ∧ Going X n img input fed₀ got₀ avail₀ w₀ fed got' k i m d s'
      ∧ (flag = true → s'.1.g.gbOut.dwValidLen = 0) ∧ (flag = false → s'.2.avail = 0) := by
  obtain ⟨flow, offers, used, calm, writes, since, tells, ending⟩ := h
  obtain ⟨flag, b, o, got', hempty, hwrites, htail, hgoes, hleaves⟩ :=
    emptyOut_row writes flow.tail havail
  have hflow : Flow X n img { s.1.g with gbOut := b } fed got' k i m d := by
    obtain ⟨hplace, hcount, htransforms, hhead, hmid, -, hlIn, hlOut, hpending, hmask⟩ := flow
    refine ⟨hplace, hcount, htransforms, ?_, ⟨hmid.owner, hmid.row, hmid.fits⟩, htail, hlIn, hlOut,
      hpending, hmask⟩
    cases hhead with
    | unborn hm hstate hfed htakes => exact .unborn hm hstate hfed htakes
    | parsing hm hstate hminIn hready hbuf => exact .parsing hm hstate hminIn hready hbuf
    | converting hm hbuf => exact .converting hm hbuf
  refine ⟨flag, ({ s.1 with g := { s.1.g with gbOut := b } }, o), got', ?_,
    ⟨hflow, ?_, used, calm, hwrites, since, tells, ending⟩, hgoes, hleaves⟩
  · rw [Ip.writeOut, hempty]
    cases flag with
    | true =>
      have hinsert : insertOk ({ s.1 with g := { s.1.g with gbOut := b } } : Core σ)
          = { s.1 with g := { s.1.g with gbOut := b } } := by
        refine if_neg ?_
        show ¬ s.1.g.pendingInsert = true
        rw [flow.pendingInsert]
        decide
      dsimp only
      rw [hinsert]
    | false => rfl
  · cases input with
    | none => exact offers
    | some src => exact offers

theorem Going.full (h : Going X n img input fed₀ got₀ avail₀ w₀ fed got k i m d s)
    (hpos : 0 < avail₀) (hfull : s.2.avail = 0) :
    CallEnds X n img input fed₀ got₀ avail₀ w₀ (⟨false, s.1⟩, s.2) := by
  refine .goes rfl h.flow h.used h.calm h.writes (fun _ => ?_) h.ending
  have hlen : got.length = got₀.length + s.2.used.toNat := by
    rw [h.writes.bytes, List.length_append, slice_length]
  have hroom := h.writes.room
  have hsince := h.since
  lia

def remaining (rows n : Nat) (done : Nat) : Nat := n * rows + 2 * n - done

theorem Place.work_le (h : Place rows n img fed k i m d) :
    work n k i m d ≤ n * rows + 2 * n := by
  have hi := h.i_le
  have hm := h.m_le
  have hd := h.d_le
  have hk := h.k_le
  rw [work]
  by_cases h0 : k = 0
  · rw [if_pos h0]
    lia
  · have hmul : n * (k - 1 + 1) ≤ n * rows := Nat.mul_le_mul_left n (by lia)
    rw [Nat.mul_add, Nat.mul_one] at hmul
    rw [if_neg h0]
    lia

variable (fresh) in
/-- **The step of a call.** -/
theorem Going.round (h : Going X n img input fed₀ got₀ avail₀ w₀ fed got k i m d s)
    (hchain : Chained X n) (himg : img.length = rows * (X 0).minIn) (hrows : 0 < rows ∨ n = 1)
    (hpos : 0 < avail₀) (havail : avail₀ < 2 ^ 32) :
    Sum.elim (fun s' => ∃ fed' got' k' i' m' d',
        Going X n img input fed₀ got₀ avail₀ w₀ fed' got' k' i' m' d' s'
          ∧ work n k' i' m' d' = work n k i m d + 1)
      (CallEnds X n img input fed₀ got₀ avail₀ w₀) (round (tblOf X) fresh input s) := by
  obtain ⟨flag, ⟨c, o⟩, got', hwrite, hgoing, hempty, hfull⟩ := h.writeOut havail
  rw [Ip.round, hwrite]
  cases flag with
  | false => exact hgoing.full hpos (hfull rfl)
  | true =>
    have hturn := hgoing.flow.turn fresh input hchain himg
      (hgoing.flow.place.not_stranded hrows) hgoing.offers (hempty rfl)
    dsimp only
    generalize process (tblOf X) fresh input c = r at hturn
    have hsince := hgoing.since
    cases hturn with
    | step flow offers used calm _ hwork ending =>
      have hused : fed₀ + c.inUsed = fed := hgoing.used
      have hstep : fed + _ = _ + c.inUsed := used
      refine ⟨_, _, _, _, _, _, ⟨flow, offers, ?_, calm hgoing.calm, hgoing.writes, ?_, fun _ => ?_, ?_⟩,
        hwork⟩
      · dsimp only
        lia
      · lia
      · lia
      · exact fun hne => ending hne (hgoing.ending hne)
    | lacks flow offers used same more =>
      have hused : fed₀ + c.inUsed = fed := hgoing.used
      have hstep : fed + _ = _ + c.inUsed := used
      refine CallEnds.goes rfl flow ?_ ?_ hgoing.writes (fun hnone => absurd hnone more) hgoing.ending
      · dsimp only
        lia
      · dsimp only
        rw [same]
        exact hgoing.calm
    | told bits =>
      refine CallEnds.goes rfl hgoing.flow hgoing.used hgoing.calm hgoing.writes (fun _ => ?_)
        hgoing.ending
      have htells := hgoing.tells fun h0 : c.ipResult = 0 => bits (by rw [h0, UInt16.zero_and])
      have hlen := hgoing.writes.length_le
      lia
    | done all =>
      have hn := Nat.lt_of_lt_of_le hgoing.flow.place.i_pos hgoing.flow.place.i_le
      obtain ⟨rfl, rfl, -⟩ := hgoing.flow.place.ending (all ▸ hn)
      have hpassed : passed k i (i - 1) = k := passed_all (by lia)
      have hlOut := hgoing.flow.lOutRows
      have hbytes := hgoing.flow.tail.bytes
      rw [hpassed] at hlOut hbytes
      rw [hempty rfl, slice_zero, List.append_nil] at hbytes
      refine CallEnds.done rfl hgoing.calm hgoing.writes hbytes hgoing.flow.lInRows hlOut
        hgoing.flow.mask ?_
      by_contra hne
      exact absurd (hgoing.ending hne) (by lia)

end Call

/-! ## What the client is told -/

theorem or_and_self (a b : UInt16) : (a ||| b) &&& b = b := by
  rw [← UInt16.toBitVec_inj]
  simp only [UInt16.toBitVec_and, UInt16.toBitVec_or]
  ext j
  simp only [BitVec.getElem_and, BitVec.getElem_or]
  cases a.toBitVec[j] <;> simp

theorem Calm.not_has {a bits : UInt16} (h : Calm a) (mask : UInt16)
    (hbits : permanentResults &&& bits = bits) : ¬ Has (a &&& mask) bits := by
  refine not_not_intro ?_
  rw [UInt16.and_assoc, UInt16.and_comm mask, ← UInt16.and_assoc, ← hbits, ← UInt16.and_assoc,
    (h : a &&& permanentResults = 0), UInt16.zero_and, UInt16.zero_and]

theorem has_done (a : UInt16) {mask : UInt16} (hmask : mask &&& permanentResults = permanentResults) :
    Has ((a ||| ipDone) &&& mask) ipDone := by
  have hdone : permanentResults &&& ipDone = ipDone := by decide
  have hkept : mask &&& ipDone = ipDone := by
    rw [← hdone, ← UInt16.and_assoc, hmask]
  have hbit : (a ||| ipDone) &&& mask &&& ipDone = ipDone := by
    rw [UInt16.and_assoc, hkept, or_and_self]
  rw [Has, hbit]
  decide

theorem Calm.not_fatal {a : UInt16} (h : Calm a) (mask : UInt16) :
    ¬ Has ((a ||| ipDone) &&& mask) ipFatalError := by
  refine not_not_intro ?_
  have hdone : ipDone &&& ipFatalError = 0 := by decide
  have hfatal : permanentResults &&& ipFatalError = ipFatalError := by decide
  have hzero : a &&& ipFatalError = 0 := by
    rw [← hfatal, ← UInt16.and_assoc, (h : a &&& permanentResults = 0), UInt16.zero_and]
  rw [UInt16.and_assoc, UInt16.and_comm mask, ← UInt16.and_assoc, and_or_right, hdone, hzero]
  exact UInt16.zero_and

structure Left (e : Leave σ × Out) (r : Result σ) : Prop where
  g : r.g = e.1.core.g
  inUsed : r.inUsed = e.1.core.inUsed
  out : r.out = e.2
  status : e.1.fatal = false → ∃ more, Calm more
    ∧ r.status = (e.1.core.ipResult ||| more) &&& e.1.core.g.wResultMask

theorem left_exitLoop (e : Leave σ × Out) : Left e (exitLoop e) := by
  rw [exitLoop]
  by_cases hfatal : e.1.fatal
  · rw [if_pos hfatal]
    exact ⟨rfl, rfl, rfl, fun hcon => absurd (hfatal.symm.trans hcon) (by decide)⟩
  · rw [if_neg hfatal]
    refine ⟨rfl, rfl, rfl, fun _ => ?_⟩
    dsimp only
    by_cases hparsed : (e.1.core.xform (e.1.core.g.xfCount - 1)).eState.IsConverting
    · rw [if_pos hparsed]
      exact ⟨ipParsedHeader, by decide, rfl⟩
    · rw [if_neg hparsed]
      exact ⟨0, by decide, by rw [UInt16.or_zero]⟩

/-! ## The client -/

structure Ask where
  mask : UInt16
  inAvail : Nat
  inNextPos : UInt32
  outBuf : Bytes
  outAvail : Nat
  outAvail_pos : 0 < outAvail
  outAvail_lt : outAvail < 2 ^ 32

/-- The client: the instance, how much of the image it has given, and what it got. -/
structure Client (σ : Type) where
  g : Inst σ
  fed : Nat
  got : List UInt8

section Session

variable (tbl : Nat → XformTbl σ) (fresh : Bytes)

/-- A call returns without a failed check, and `Q` holds of its result and of the client then. -/
def Answers (input : Option Bytes) (inAvail : Nat) (q : Ask) (s : Client σ)
    (Q : UInt16 → Client σ → Prop) : Prop :=
  ∃ n r, ipConvert tbl fresh input n (ipResultMask s.g q.mask) [] inAvail q.inNextPos
      (some (q.outBuf, q.outAvail)) = .inr r
    ∧ ¬ Has r.status ipFatalError
    ∧ Q r.status ⟨r.g, if input.isSome then s.fed + r.inUsed else s.fed,
      s.got ++ slice r.out.buf 0 r.out.used.toNat⟩

/-- The client gives the image: at each call as much as it likes of what is left. -/
def Feeds (img : List UInt8) : List Ask → Client σ → (Client σ → Prop) → Prop
  | [], s, Q => Q s
  | q :: qs, s, Q =>
    Answers tbl fresh (some fun j => ofList img 0 (s.fed + j)) (min q.inAvail (img.length - s.fed)) q s
      fun _ s => Feeds img qs s Q

/-- Calls with a `NULL` input, until one says that the job is done: `n` of them are enough. -/
def Drains : Nat → (Nat → Ask) → Client σ → (Client σ → Prop) → Prop
  | 0, _, _, _ => False
  | n + 1, asks, s, Q =>
    Answers tbl fresh none (asks 0).inAvail (asks 0) s fun status s =>
      if Has status ipDone then Q s else Drains n (fun j => asks (j + 1)) s Q

end Session

/-- A job of `n` transforms, before the first call. -/
def opened (n : Nat) (null : σ) (traits : IpImageTraits) : Client σ where
  g := ipSetDefaultInputTraits (ipOpen n null) traits
  fed := 0
  got := []

/-- The rows of the image, each one converted by all transforms, and both counts of rows. -/
def HasAll (X : Nat → RowXform σ rows) (n : Nat) (img : List UInt8) (s : Client σ) : Prop :=
  s.got = (List.range rows).flatMap (fun t => stage X n (rowOf X img t))
    ∧ s.g.lInRows = rows ∧ s.g.lOutRows = rows

/-- However the client gives the image and takes the output, no check fails, and calls with a
`NULL` input come to the end of the job; the client has all then. -/
def Delivers (X : Nat → RowXform σ rows) (n : Nat) (fresh : Bytes) (null : σ)
    (traits : IpImageTraits) (img : List UInt8) : Prop :=
  ∀ qs, Feeds (tblOf X) fresh img qs (opened n null traits) fun s =>
    s.fed = img.length → ∀ asks, ∃ calls, Drains (tblOf X) fresh calls asks s (HasAll X n img)

/-! ## The job from call to call -/

section Steps

variable {fresh : Bytes} {input : Option Bytes} {s : Client σ}

theorem flow_opened (hn : 0 < n) {null : σ} {traits : IpImageTraits}
    (htakes : (X 0).Takes ((opened n null traits).g.xfArray 0).inTraits) :
    Flow X n img (opened n null traits).g 0 [] 0 n 0 0 where
  place := ⟨hn, Nat.le_refl n, Nat.zero_le rows, Nat.le_refl 0, Nat.zero_le n, Nat.zero_le _,
    fun _ => ⟨rfl, Nat.zero_le 1⟩, nofun, nofun, nofun⟩
  xfCount := rfl
  transforms := by
    refine ⟨nofun, fun j _ hj => absurd hj (Nat.not_lt_zero j), nofun, fun j _ hj _ => ?_⟩
    show ((ipSetDefaultInputTraits (ipOpen n null) traits).xfArray j).eState = .nonexistent
    rw [ipSetDefaultInputTraits]
    dsimp only
    rw [Function.update_of_ne (Nat.ne_of_gt hj)]
    rfl
  head := .unborn rfl rfl rfl htakes
  mid := ⟨(if_neg (Nat.lt_irrefl n)).symm, fun hlt => absurd hlt (Nat.lt_irrefl n), nofun⟩
  tail := ⟨by rw [passed_all (by omega)]; rfl, fun hne => absurd rfl hne, fun h0 => by omega⟩
  lInRows := rfl
  lOutRows := by
    rw [passed_all (by omega)]
    rfl
  pendingInsert := rfl
  mask := (by decide : permanentResults &&& permanentResults = permanentResults)

theorem Flow.masked {g : Inst σ} (h : Flow X n img g fed got k i m d) (mask : UInt16) :
    Flow X n img (ipResultMask g mask) fed got k i m d := by
  obtain ⟨hplace, hcount, htransforms, hhead, hmid, htail, hlIn, hlOut, hpending, -⟩ := h
  refine ⟨hplace, hcount, htransforms, ?_, ⟨hmid.owner, hmid.row, hmid.fits⟩, htail, hlIn, hlOut,
    hpending, or_and_self mask permanentResults⟩
  cases hhead with
  | unborn hm hstate hfed htakes => exact .unborn hm hstate hfed htakes
  | parsing hm hstate hminIn hready hbuf => exact .parsing hm hstate hminIn hready hbuf
  | converting hm hbuf => exact .converting hm hbuf

variable (fresh) in
theorem Flow.call_returns (h : Flow X n img s.g s.fed s.got k i m d) (hchain : Chained X n)
    (himg : img.length = rows * (X 0).minIn) (hrows : 0 < rows ∨ n = 1) (q : Ask) (inAvail : Nat)
    (hoffers : Offers img input s.fed
      (⟨ipResultMask s.g q.mask, inAvail, 0, q.inNextPos, 0, []⟩ : Core σ))
    (hending : input ≠ none → d = 0) :
    ∃ count e r, ipConvert (tblOf X) fresh input count (ipResultMask s.g q.mask) [] inAvail
        q.inNextPos (some (q.outBuf, q.outAvail)) = .inr r
      ∧ Left e r ∧ CallEnds X n img input s.fed s.got q.outAvail (work n k i m d) e := by
  have hstart : Going X n img input s.fed s.got q.outAvail (work n k i m d) s.fed s.got k i m d
      (⟨ipResultMask s.g q.mask, inAvail, 0, q.inNextPos, 0, []⟩,
        openOut (some (q.outBuf, q.outAvail))) :=
    ⟨h.masked q.mask, hoffers, rfl, (by decide : Calm 0), writes_openOut s.got q.outBuf q.outAvail,
      Nat.le_refl _, fun hne => absurd rfl hne, hending⟩
  obtain ⟨count, e, hrounds, hends⟩ := rounds_returns (round (tblOf X) fresh input)
    (fun left t => ∃ fed' got' k' i' m' d',
      Going X n img input s.fed s.got q.outAvail (work n k i m d) fed' got' k' i' m' d' t
        ∧ left = n * rows + 2 * n - work n k' i' m' d')
    (CallEnds X n img input s.fed s.got q.outAvail (work n k i m d))
    (fun left t ht => by
      obtain ⟨fed', got', k', i', m', d', hgoing, rfl⟩ := ht
      have hround := hgoing.round fresh hchain himg hrows q.outAvail_pos q.outAvail_lt
      generalize round (tblOf X) fresh input t = x at hround
      cases x with
      | inr e => exact hround
      | inl t' =>
        obtain ⟨fed₂, got₂, k₂, i₂, m₂, d₂, hnext, hwork⟩ := hround
        have hle := hnext.flow.place.work_le
        exact ⟨_, by lia, fed₂, got₂, k₂, i₂, m₂, d₂, hnext, rfl⟩)
    _ _ ⟨_, _, _, _, _, _, hstart, rfl⟩
  refine ⟨count, e, exitLoop e, ?_, left_exitLoop e, hends⟩
  rw [ipConvert, hrounds]
  rfl

variable (fresh) in
/-- **A call.** -/
theorem Flow.answers (h : Flow X n img s.g s.fed s.got k i m d) (hchain : Chained X n)
    (himg : img.length = rows * (X 0).minIn) (hrows : 0 < rows ∨ n = 1) (q : Ask) (inAvail : Nat)
    (hoffers : Offers img input s.fed
      (⟨ipResultMask s.g q.mask, inAvail, 0, q.inNextPos, 0, []⟩ : Core σ))
    (hending : input ≠ none → d = 0) :
    Answers (tblOf X) fresh input inAvail q s fun status s' =>
      (¬ Has status ipDone ∧ ∃ k' i' m' d', Flow X n img s'.g s'.fed s'.got k' i' m' d'
        ∧ (input ≠ none → d' = 0)
        ∧ (input = none → s'.fed = s.fed
          ∧ work n k i m d + s.got.length < work n k' i' m' d' + s'.got.length))
      ∨ (Has status ipDone ∧ input = none ∧ HasAll X n img s') := by
  have hn : 0 < n := Nat.lt_of_lt_of_le h.place.i_pos h.place.i_le
  obtain ⟨count, e, r, hcall, hleft, hends⟩ := h.call_returns fresh hchain himg hrows q
    inAvail hoffers hending
  refine ⟨count, r, hcall, ?_⟩
  cases hends with
  | goes fatal flow used calm writes progress ending =>
    obtain ⟨more, hmore, hstatus⟩ := hleft.status fatal
    rw [hstatus]
    refine ⟨(calm.or hmore).not_has _ (by decide), .inl ⟨(calm.or hmore).not_has _ (by decide), ?_⟩⟩
    have hgot := writes.bytes
    rw [hleft.g, hleft.inUsed, hleft.out, ← hgot]
    cases input with
    | none =>
      have hfed : s.fed = img.length := hoffers
      have hle := flow.place.fed_le
      have hsame : e.1.core.inUsed = 0 := by lia
      rw [hsame, Nat.add_zero] at used
      subst used
      exact ⟨_, _, _, _, flow, ending, fun _ => ⟨rfl, progress rfl⟩⟩
    | some src =>
      subst used
      exact ⟨_, _, _, _, flow, ending, nofun⟩
  | @done c got left calm writes all lInRows lOutRows mask last =>
    obtain ⟨more, hmore, hstatus⟩ := hleft.status (by rw [left])
    have hstatus' : r.status = ((c.ipResult ||| more) ||| ipDone) &&& c.g.wResultMask := by
      rw [hstatus, left]
      show ((c.ipResult ||| ipDone) ||| more) &&& c.g.wResultMask = _
      rw [UInt16.or_assoc, UInt16.or_comm ipDone, ← UInt16.or_assoc]
    have hgot := writes.bytes
    rw [hstatus', hleft.g, hleft.out, ← hgot, left]
    refine ⟨(calm.or hmore).not_fatal _, .inr ⟨has_done _ mask, last, ?_, lInRows, lOutRows⟩⟩
    rw [all, given, Nat.sub_add_cancel hn]

theorem offers_image (c : Core σ) {avail : Nat} (hle : fed + avail ≤ img.length) (hused : c.inUsed = 0)
    (havail : c.inAvail = avail) : Offers img (some fun j => ofList img 0 (fed + j)) fed c := by
  refine ⟨?_, havail ▸ hle⟩
  have himg := take_drop_slice (ofList img 0) (i := 0) (j := fed) (k := avail) hle
  rw [slice_ofList] at himg
  rw [havail, himg, hused]
  refine slice_congr fun j _ => ?_
  simp only [Nat.zero_add]

theorem offers_none (c : Core σ) (hfed : fed = img.length) : Offers img none fed c := hfed

theorem Flow.feeds (hchain : Chained X n) (himg : img.length = rows * (X 0).minIn)
    (hrows : 0 < rows ∨ n = 1) (qs : List Ask) (h : Flow X n img s.g s.fed s.got k i m 0) :
    Feeds (tblOf X) fresh img qs s fun s' => ∃ k' i' m', Flow X n img s'.g s'.fed s'.got k' i' m' 0 := by
  induction qs generalizing s k i m with
  | nil => exact ⟨k, i, m, h⟩
  | cons q qs ih =>
    have hle : s.fed + min q.inAvail (img.length - s.fed) ≤ img.length := by
      have hfed := h.place.fed_le
      lia
    obtain ⟨count, r, hcall, hfatal, hkept⟩ := h.answers fresh hchain himg hrows q _
      (offers_image _ hle rfl rfl) (fun _ => rfl)
    refine ⟨count, r, hcall, hfatal, ?_⟩
    rcases hkept with ⟨-, k', i', m', d', hflow, hd, -⟩ | ⟨-, hnone, -⟩
    · obtain rfl := hd (Option.some_ne_none _)
      exact ih hflow
    · exact absurd hnone (Option.some_ne_none _)

variable (X img) in
theorem given_length_le (j : Nat) {k k' : Nat} (h : k ≤ k') :
    (given X img j k).length ≤ (given X img j k').length := by
  induction h with
  | refl => exact Nat.le_refl _
  | step _ ih =>
    rw [given_succ, List.length_append]
    omega

theorem Flow.got_le {g : Inst σ} (h : Flow X n img g fed got k i m d) :
    got.length ≤ (given X img (n - 1) rows).length := by
  have hbytes := congrArg List.length h.tail.bytes
  have hpassed : passed k i (n - 1) ≤ rows := by
    have hk := h.place.k_le
    rw [passed]
    split
    · exact hk
    · lia
  have hle := given_length_le X img (n - 1) hpassed
  rw [List.length_append] at hbytes
  lia

theorem Flow.drains (hchain : Chained X n) (himg : img.length = rows * (X 0).minIn)
    (hrows : 0 < rows ∨ n = 1) (h : Flow X n img s.g s.fed s.got k i m d)
    (hfed : s.fed = img.length) (asks : Nat → Ask) :
    ∃ calls, Drains (tblOf X) fresh calls asks s (HasAll X n img) := by
  -- each call makes a step or writes something
  generalize hleft : n * rows + 2 * n + (given X img (n - 1) rows).length
    - (work n k i m d + s.got.length) = left
  induction left using Nat.strongRecOn generalizing s k i m d asks with
  | ind left ih =>
    obtain ⟨count, r, hcall, hfatal, hkept⟩ := h.answers fresh hchain himg
      hrows (asks 0) (asks 0).inAvail (offers_none _ hfed) (fun hne => absurd rfl hne)
    rcases hkept with ⟨hgoes, k', i', m', d', hflow, -, hprogress⟩ | ⟨hdone, -, hall⟩
    · obtain ⟨hsame, hmore⟩ := hprogress rfl
      have hwork := hflow.place.work_le
      have hgot := hflow.got_le
      obtain ⟨calls, hdrains⟩ := ih _ (by lia) hflow (hsame.trans hfed) (fun j => asks (j + 1)) rfl
      refine ⟨calls + 1, count, r, hcall, hfatal, ?_⟩
      dsimp only
      rw [if_neg hgoes]
      exact hdrains
    · refine ⟨1, count, r, hcall, hfatal, ?_⟩
      dsimp only
      rw [if_pos hdone]
      exact hall

theorem Feeds.mono {tbl : Nat → XformTbl σ} {P Q : Client σ → Prop} (hPQ : ∀ s, P s → Q s)
    {qs : List Ask} (h : Feeds tbl fresh img qs s P) : Feeds tbl fresh img qs s Q := by
  induction qs generalizing s with
  | nil => exact hPQ s h
  | cons q qs ih =>
    obtain ⟨count, r, hcall, hfatal, hrest⟩ := h
    exact ⟨count, r, hcall, hfatal, ih hrest⟩

theorem round_of_empty {tbl : Nat → XformTbl σ} {t : Core σ × Out}
    (hempty : t.1.g.gbOut.dwValidLen = 0) (hpending : t.1.g.pendingInsert = false) :
    round tbl fresh input t = match process tbl fresh input t.1 with
      | .ok c => .inl (c, t.2.refresh t.1.g.gbOut)
      | .error e => .inr (e, t.2.refresh t.1.g.gbOut) := by
  have hinsert : insertOk t.1 = t.1 := by
    refine if_neg ?_
    rw [hpending]
    decide
  cases hx : process tbl fresh input t.1 with
  | ok c => simp only [round, writeOut, emptyOut_of_empty hempty, hinsert, hx]
  | error e => simp only [round, writeOut, emptyOut_of_empty hempty, hinsert, hx]

end Steps

/-! ## No rows -/

section Empty

variable {Y : Nat → RowXform σ 0} {fresh : Bytes}

def Idle (Y : Nat → RowXform σ 0) (n w : Nat) (t : Core σ × Out) : Prop :=
  ∃ m d, Flow Y n [] t.1.g 0 [] 0 n m d ∧ m + d = w ∧ Calm t.1.ipResult
    ∧ t.1.g.wResultMask = permanentResults

variable (fresh) in
theorem Idle.round {w : Nat} {t : Core σ × Out} (h : Idle Y n w t) (hchain : Chained Y n)
    (hn : 1 < n) :
    if w < 2 then ∃ t', round (tblOf Y) fresh none t = .inl t' ∧ Idle Y n (w + 1) t'
    else w = 2 → ∃ e, round (tblOf Y) fresh none t = .inr e ∧ e.1.fatal = true := by
  obtain ⟨m, d, hflow, rfl, hcalm, hmask⟩ := h
  have hempty : t.1.g.gbOut.dwValidLen = 0 := by
    have hbytes := congrArg List.length hflow.tail.bytes
    rw [passed_all (by lia), List.nil_append, slice_length] at hbytes
    exact hbytes
  have hbits : ¬ Has t.1.ipResult t.1.g.wResultMask := by
    rw [hmask]
    exact not_not_intro hcalm
  have hm := (hflow.place.start rfl).2
  have hdm := hflow.place.d_le
  rw [round_of_empty hempty hflow.pendingInsert]
  by_cases hw : m + d < 2
  · rw [if_pos hw]
    have hturn := hflow.turn fresh none hchain (Nat.zero_mul _).symm
      (fun hstranded => by have := hstranded.1; have := hstranded.2.1; lia) rfl hempty
    generalize process (tblOf Y) fresh none t.1 = r at hturn
    cases hturn with
    | @step c' fed' k' i' m' d' flow offers used calm mask hwork ending =>
      refine ⟨_, rfl, m', d', ?_, ?_, calm hcalm, mask.trans hmask⟩
      · obtain rfl : fed' = 0 := Nat.le_zero.mp flow.place.fed_le
        obtain rfl : k' = 0 := Nat.le_zero.mp flow.place.k_le
        obtain rfl := (flow.place.start rfl).1
        exact flow
      · obtain rfl : k' = 0 := Nat.le_zero.mp flow.place.k_le
        rw [work, work, if_pos rfl, if_pos rfl] at hwork
        lia
    | lacks _ _ _ _ more => exact absurd rfl more
    | told bits => exact absurd bits hbits
    | done all => lia
  · rw [if_neg hw]
    intro hw
    obtain rfl : d = m := by lia
    obtain ⟨c', hprocess⟩ := hflow.strands fresh none hchain (by lia) (by lia)
      hbits
    rw [hprocess]
    exact ⟨_, rfl, rfl⟩

variable (fresh) in
theorem Idle.fails {t : Core σ × Out} (h : Idle Y n 0 t) (hchain : Chained Y n) (hn : 1 < n) :
    ∃ e, rounds (Ip.round (tblOf Y) fresh none) 3 t = .inr e ∧ e.1.fatal = true := by
  obtain ⟨t₁, hround₁, h₁⟩ := h.round fresh hchain hn
  obtain ⟨t₂, hround₂, h₂⟩ := h₁.round fresh hchain hn
  obtain ⟨e, hround₃, hfatal⟩ := h₂.round fresh hchain hn rfl
  refine ⟨e, ?_, hfatal⟩
  rw [rounds, hround₁]
  dsimp only
  rw [rounds, hround₂]
  dsimp only
  rw [rounds, hround₃]

def silent : Ask := ⟨0, 0, 0, fun _ => 0, 1, by decide, by decide⟩

theorem not_delivers (hchain : Chained Y n) (hn : 1 < n) {null : σ} {traits : IpImageTraits}
    (htakes : (Y 0).Takes ((opened n null traits).g.xfArray 0).inTraits) :
    ¬ Delivers Y n fresh null traits [] := by
  intro hdelivers
  obtain ⟨calls, hdrains⟩ := hdelivers [] rfl fun _ => silent
  cases calls with
  | zero => exact hdrains
  | succ calls =>
    obtain ⟨count, r, hcall, hfatal, -⟩ := hdrains
    have hflow : Flow Y n [] (ipResultMask (opened n null traits).g silent.mask) 0 [] 0 n 0 0 :=
      (flow_opened (by omega) htakes).masked silent.mask
    have hidle : Idle Y n 0 (⟨ipResultMask (opened n null traits).g silent.mask, 0, 0, 0, 0, []⟩,
        openOut (some (silent.outBuf, silent.outAvail))) :=
      ⟨0, 0, hflow, rfl, (by decide : Calm 0), (by decide : 0 ||| permanentResults = _)⟩
    obtain ⟨e, hrounds, hfails⟩ := hidle.fails fresh hchain hn
    rw [ipConvert] at hcall
    generalize hx : rounds (Ip.round (tblOf Y) fresh none) count _ = x at hcall
    cases x with
    | inl t => cases hcall
    | inr e' =>
      obtain rfl := rounds_unique hx hrounds
      obtain rfl : exitLoop e' = r := Sum.inr.inj hcall
      rw [exitLoop, if_pos hfails] at hfatal
      exact hfatal (by decide : Has ipFatalError ipFatalError)

end Empty

/-! ## The job as a whole -/

/-- **A job delivers if and only if there are rows, or there is one transform.** -/
theorem delivers_iff (hn : 0 < n) (hchain : Chained X n) (fresh : Bytes) (null : σ)
    (traits : IpImageTraits) (htakes : (X 0).Takes ((opened n null traits).g.xfArray 0).inTraits)
    (himg : img.length = rows * (X 0).minIn) :
    Delivers X n fresh null traits img ↔ 0 < rows ∨ n = 1 := by
  constructor
  · intro hdelivers
    by_contra hcon
    rw [not_or] at hcon
    obtain rfl : rows = 0 := Nat.eq_zero_of_not_pos hcon.1
    rw [Nat.zero_mul, List.length_eq_zero_iff] at himg
    subst himg
    exact not_delivers hchain (by omega) htakes hdelivers
  · intro hrows qs
    refine Feeds.mono ?_ (Flow.feeds hchain himg hrows qs (flow_opened hn htakes))
    rintro s ⟨k, i, m, hflow⟩ hfed asks
    exact hflow.drains hchain himg hrows hfed asks

/-! ### Rows of one byte -/

/-- A transform that passes rows of one byte on: it counts them, and knows where it is. -/
def passer : XformTbl (Nat × UInt32) where
  openXform := (ipDone, 0, 0)
  setDefaultInputTraits := fun h _ => (ipDone, h)
  setXformSpec := fun h => (ipDone, h)
  getHeaderBufSize := fun h => (ipDone, 0, h)
  getActualTraits := fun h _ _ inTraits outTraits =>
    ⟨ipDone ||| ipReadyForData, 0, 0, inTraits, outTraits, h⟩
  getActualBufSizes := fun h => (1, 1, h)
  convert := fun h _ inBuf _ outBuf =>
    match inBuf with
    | none => ⟨ipDone, 0, 0, 0, 0, outBuf, h⟩
    | some buf => ⟨ipConsumedRow ||| ipProducedRow ||| ipReadyForData, 1,
        UInt32.ofNat ((h.1 + 1) * 1), 1, h.2, blit outBuf 0 buf 1, h.1 + 1, h.2 + UInt32.ofNat 1⟩
  newPage := id

def passRow (rows : Nat) : RowXform (Nat × UInt32) rows where
  toXformTbl := passer
  minIn := 1
  minOut := 1
  f := id
  Takes := fun _ => True
  Gives := fun _ => True
  Ready := fun h => h = (0, 0)
  At := fun k p h => h = (k, p)
  minIn_pos := Nat.one_pos
  length_le := fun _ hrow => Nat.le_of_eq hrow
  setsUp := fun _ _ => ⟨rfl, rfl, rfl, rfl, rfl, rfl⟩
  skipsHeader := fun _ _ _ _ _ hready => ⟨rfl, rfl, rfl, trivial, rfl, rfl, hready⟩
  converts := by
    rintro k p h len buf outLen outBuf rfl - -
    refine ⟨rfl, rfl, rfl, rfl, rfl, ?_, rfl⟩
    show slice (blit outBuf 0 buf 1) 0 1 = slice buf 0 1
    exact slice_blit_self outBuf 0 buf 1
  flushes := fun _ _ _ _ _ => ⟨rfl, rfl, rfl⟩

theorem chained_passRow (rows n : Nat) : Chained (fun _ => passRow rows) n :=
  ⟨fun _ _ _ hrow => Nat.le_of_eq hrow.symm, fun _ _ _ _ _ _ => trivial⟩

theorem delivers_iff_two : Delivers (fun _ => passRow 2) 2 (fun _ => 0) (0, 0)
    ⟨1, 8, 1, 0, 0, 2, 1, 1⟩ [7, 9] ↔ 0 < 2 ∨ 2 = 1 :=
  delivers_iff (by decide) (chained_passRow 2 2) (fun _ => 0) (0, 0) ⟨1, 8, 1, 0, 0, 2, 1, 1⟩ trivial
    rfl

/-- An image without rows, and two transforms. -/
theorem not_delivers_none : ¬ Delivers (fun _ => passRow 0) 2 (fun _ => 0) (0, 0)
    ⟨1, 8, 1, 0, 0, 0, 1, 1⟩ [] :=
  not_delivers (chained_passRow 0 2) (by decide) trivial

end Hplip.Ip
