import Hplip.Hpcups.CommonDefinitions
import Hplip.Hpcups.Compressor
import Hplip.Lib.Machine

/-!
# Buffered output (Encapsulator.cpp)

`Send` collects what it is given in `pcl_buffer`, writes the buffer out when the
next piece does not fit, and hands pieces as large as the buffer to the device
directly; `Cleanup` writes out what is left.

The device is any function from the sends so far and a piece of data to an
error code. On the direct path `Send` drops that code and reports success.
-/

namespace Hplip.Hpcups.Encapsulator

open Machine DriverError

/-! ## The calls -/

structure Sent where
  data : List UInt8
  result : DriverError
  deriving DecidableEq, Repr

/-- `SystemServices::Send`: its answer to a piece of data after what it was sent. -/
abbrev Device := List Sent → List UInt8 → DriverError

/-- The members that `Send` and `Cleanup` use, with the pointer as an offset, and
what the device was sent. -/
structure State where
  pclBuffer : Option Mem
  curPclBufferSize : Nat
  curPclBufferPtr : Nat
  sent : List Sent

def pclBufferSize : Nat := 10000

/-- The buffer as `StartJob` allocates it. -/
def State.started : State := ⟨some fun _ => 0, pclBufferSize, 0, []⟩

variable (device : Device)

/-- `Encapsulator::sendBuffer`. -/
def sendBuffer (s : State) (buf : List UInt8) : DriverError × State :=
  if buf.length = 0 then (noError, s)
  else
    let err := device s.sent buf
    (err, { s with sent := s.sent ++ [⟨buf, err⟩] })

/-- The second half of `Send`: copy, or bypass the buffer. -/
def place (s : State) (m : Mem) (buf : List UInt8) : DriverError × State :=
  if buf.length < s.curPclBufferSize then
    (noError, { s with
      pclBuffer := some (blit m s.curPclBufferPtr (ofList buf 0) buf.length)
      curPclBufferPtr := s.curPclBufferPtr + buf.length })
  else
    -- the result is assigned to `err`, but `NO_ERROR` is returned
    let (_, s) := sendBuffer device s buf
    (noError, s)

/-- `Encapsulator::Send`. -/
def send (s : State) (buf : List UInt8) : DriverError × State :=
  match s.pclBuffer with
  | none => sendBuffer device s buf
  | some m =>
    if s.curPclBufferPtr + buf.length > s.curPclBufferSize then
      let (err, s) := sendBuffer device s (slice m 0 s.curPclBufferPtr)
      if err ≠ noError then (err, s)
      else place device { s with curPclBufferPtr := 0 } m buf
    else place device s m buf

/-- `Encapsulator::Cleanup`. -/
def cleanup (s : State) : DriverError × State :=
  match s.pclBuffer with
  | none => (noError, { s with curPclBufferPtr := 0 })
  | some m =>
    if s.curPclBufferPtr > 0 then
      let (err, s) := sendBuffer device s (slice m 0 s.curPclBufferPtr)
      (err, { s with curPclBufferPtr := 0 })
    else (noError, { s with curPclBufferPtr := 0 })

inductive Call
  | send (buf : List UInt8)
  | cleanup

def exec (s : State) : Call → DriverError × State
  | .send buf => send device s buf
  | .cleanup => cleanup device s

/-! ## What a run should do -/

def accepted (sent : List Sent) : List UInt8 :=
  sent.flatMap fun x => if x.result = noError then x.data else []

def State.pending (s : State) : List UInt8 :=
  match s.pclBuffer with
  | none => []
  | some m => slice m 0 s.curPclBufferPtr

/-- The pointer is inside the buffer. -/
def State.Inside (s : State) : Prop :=
  s.pclBuffer ≠ none → s.curPclBufferPtr ≤ s.curPclBufferSize

def Call.bytes : Call → List UInt8
  | .send buf => buf
  | .cleanup => []

def sends (t : Step State Call DriverError) : List Sent :=
  t.after.sent.drop t.before.sent.length

/-- What is promised of a run: a failing send is the result of its call, the
pointer stays inside the buffer, and as long as every call succeeds the device
and the buffer hold all the data in order. -/
structure Sound (s : State) (calls : List Call) : Prop where
  returned : ∀ t ∈ trace (exec device) s calls, ∀ x ∈ sends t,
    x.result ≠ noError → t.answer = x.result
  inside : ∀ t ∈ trace (exec device) s calls, t.after.Inside
  delivered : ∀ pre, pre <+: calls →
    (∀ t ∈ trace (exec device) s pre, t.answer = noError) →
    accepted (final (exec device) s pre).sent ++ (final (exec device) s pre).pending
      = accepted s.sent ++ s.pending ++ pre.flatMap Call.bytes

/-- The sends before a piece of data is handed to the device directly: the
buffer is written out first, if there is something in it. -/
def State.flushed (s : State) : List Sent :=
  s.sent ++ if s.pending = [] then [] else [⟨s.pending, noError⟩]

/-- A call hands in at least as much as the buffer holds, the device accepts the
buffer, and rejects the data. -/
def BypassFails (s : State) : Call → Prop
  | .cleanup => False
  | .send buf => s.pclBuffer ≠ none ∧ s.curPclBufferSize ≤ buf.length ∧ buf ≠ [] ∧
    (s.pending ≠ [] → device s.sent s.pending = noError) ∧ device s.flushed buf ≠ noError

/-! ## One call -/

variable {device}

theorem accepted_append (xs ys : List Sent) :
    accepted (xs ++ ys) = accepted xs ++ accepted ys :=
  List.flatMap_append

theorem accepted_singleton (x : Sent) (h : x.result = noError) : accepted [x] = x.data := by
  simp [accepted, h]

/-- What a call does: its sends come last in the log, the pointer stays inside,
and unless it drops a result, failures are returned and successes deliver. -/
structure Does (device : Device) (s : State) (c : Call) (r : DriverError × State) : Prop where
  sent : ∃ new, r.2.sent = s.sent ++ new ∧
    (¬ BypassFails device s c → ∀ x ∈ new, x.result ≠ noError → r.1 = x.result) ∧
    (BypassFails device s c → ∃ x ∈ new, x.result ≠ noError ∧ r.1 = noError)
  inside : r.2.Inside
  delivered : ¬ BypassFails device s c → r.1 = noError →
    accepted r.2.sent ++ r.2.pending = accepted s.sent ++ s.pending ++ c.bytes

theorem sendBuffer_eq (s : State) {buf : List UInt8} (hne : buf ≠ []) :
    sendBuffer device s buf
      = (device s.sent buf, { s with sent := s.sent ++ [⟨buf, device s.sent buf⟩] }) :=
  if_neg fun h => hne (List.length_eq_zero_iff.mp h)

theorem sendBuffer_nil (s : State) : sendBuffer device s [] = (noError, s) := rfl

theorem place_does {s t : State} {m : Mem} {buf : List UInt8} {pre : List Sent}
    (hbuffer : s.pclBuffer ≠ none) (hm : t.pclBuffer = some m)
    (hsize : t.curPclBufferSize = s.curPclBufferSize)
    (hsent : t.sent = s.sent ++ pre) (hpre : ∀ x ∈ pre, x.result = noError)
    (hfits : buf.length < s.curPclBufferSize →
      t.curPclBufferPtr + buf.length ≤ s.curPclBufferSize)
    (hbypass : s.curPclBufferSize ≤ buf.length → t.curPclBufferPtr = 0 ∧
      t.sent = s.flushed ∧ (s.pending ≠ [] → device s.sent s.pending = noError))
    (hdata : accepted t.sent ++ t.pending = accepted s.sent ++ s.pending) :
    Does device s (.send buf) (place device t m buf) := by
  have hpending : t.pending = slice m 0 t.curPclBufferPtr := by
    rw [State.pending, hm]
  unfold place
  rw [hsize]
  by_cases hfit : buf.length < s.curPclBufferSize
  · -- copied behind what is there
    rw [if_pos hfit]
    have hroom := hfits hfit
    refine ⟨⟨pre, hsent, fun _ x hx hbad => absurd (hpre x hx) hbad, ?_⟩, fun _ => ?_,
      fun _ _ => ?_⟩
    · rintro ⟨-, hlarge, -⟩
      exact absurd hfit (Nat.not_lt.mpr hlarge)
    · exact hroom
    · show accepted t.sent
        ++ slice (blit m t.curPclBufferPtr (ofList buf 0) buf.length) 0
          (t.curPclBufferPtr + buf.length) = accepted s.sent ++ s.pending ++ buf
      rw [slice_blit_ofList, ← hpending, ← List.append_assoc, hdata]
  rw [if_neg hfit]
  obtain ⟨hptr, hflushed, hok⟩ := hbypass (Nat.not_lt.mp hfit)
  have hempty : t.pending = [] := by
    rw [hpending, hptr, slice_zero]
  rw [hempty, List.append_nil] at hdata
  have hinside : ∀ s₂ : State, s₂.curPclBufferPtr = t.curPclBufferPtr → s₂.Inside := by
    intro s₂ h _
    rw [h, hptr]
    exact Nat.zero_le _
  cases buf with
  | nil =>
    rw [sendBuffer_nil]
    refine ⟨⟨pre, hsent, fun _ x hx hbad => absurd (hpre x hx) hbad, ?_⟩, hinside _ rfl,
      fun _ _ => ?_⟩
    · rintro ⟨-, -, hne, -⟩
      exact absurd rfl hne
    · show accepted t.sent ++ t.pending = accepted s.sent ++ s.pending ++ []
      rw [hempty, hdata, List.append_nil]
  | cons b bs =>
    have hne : b :: bs ≠ [] := List.cons_ne_nil b bs
    rw [sendBuffer_eq t hne]
    refine ⟨⟨pre ++ [⟨b :: bs, device t.sent (b :: bs)⟩], ?_, ?_, ?_⟩, hinside _ rfl, ?_⟩
    · show t.sent ++ _ = s.sent ++ (pre ++ _)
      rw [hsent, List.append_assoc]
    · intro hnot x hx hbad
      rcases List.mem_append.mp hx with hx | hx
      · exact absurd (hpre x hx) hbad
      · -- a rejection here is what `hnot` excludes
        rw [List.mem_singleton.mp hx] at hbad
        refine absurd ⟨hbuffer, Nat.not_lt.mp hfit, hne, hok, ?_⟩ hnot
        rw [← hflushed]
        exact hbad
    · rintro ⟨-, -, -, -, hbad⟩
      refine ⟨_, List.mem_append_right _ (List.mem_singleton.mpr rfl), ?_, rfl⟩
      show device t.sent (b :: bs) ≠ noError
      rw [hflushed]
      exact hbad
    · intro hnot _
      have haccept : device t.sent (b :: bs) = noError := by
        by_contra hbad
        rw [hflushed] at hbad
        exact hnot ⟨hbuffer, Nat.not_lt.mp hfit, hne, hok, hbad⟩
      show accepted (t.sent ++ [⟨b :: bs, device t.sent (b :: bs)⟩]) ++ t.pending
        = accepted s.sent ++ s.pending ++ (b :: bs)
      rw [accepted_append, accepted_singleton _ haccept, hdata, hempty, List.append_nil]

theorem send_none_does {s : State} (hnone : s.pclBuffer = none) (buf : List UInt8) :
    Does device s (.send buf) (sendBuffer device s buf) := by
  have hnot : ¬ BypassFails device s (.send buf) := fun h => h.1 hnone
  have hpending : ∀ sent, State.pending { s with sent := sent } = [] := by
    intro sent
    rw [State.pending, hnone]
  cases buf with
  | nil =>
    rw [sendBuffer_nil]
    refine ⟨⟨[], (List.append_nil _).symm, fun _ x hx => absurd hx List.not_mem_nil,
      fun h => absurd h hnot⟩, fun h => absurd hnone h, fun _ _ => ?_⟩
    exact (List.append_nil _).symm
  | cons b bs =>
    rw [sendBuffer_eq s (List.cons_ne_nil b bs)]
    refine ⟨⟨_, rfl, fun _ x hx _ => ?_, fun h => absurd h hnot⟩, fun h => absurd hnone h,
      fun _ haccept => ?_⟩
    · rw [List.mem_singleton.mp hx]
    · show accepted (s.sent ++ [_]) ++ State.pending { s with sent := _ }
        = accepted s.sent ++ State.pending { s with sent := s.sent } ++ (b :: bs)
      rw [accepted_append, accepted_singleton _ haccept, hpending, hpending, List.append_nil,
        List.append_nil]

theorem send_does {s : State} (hs : s.Inside) (buf : List UInt8) :
    Does device s (.send buf) (send device s buf) := by
  unfold send
  cases hm : s.pclBuffer with
  | none => exact send_none_does hm buf
  | some m =>
    have hbuffer : s.pclBuffer ≠ none := by
      rw [hm]
      exact Option.some_ne_none m
    have hptr := hs hbuffer
    have hpending : s.pending = slice m 0 s.curPclBufferPtr := by
      rw [State.pending, hm]
    dsimp only
    rw [← hpending]
    by_cases hfull : s.curPclBufferPtr + buf.length > s.curPclBufferSize
    swap
    · -- there is room; data as large as the buffer only finds room in an empty one
      rw [if_neg hfull]
      refine place_does hbuffer hm rfl (List.append_nil _).symm
        (fun x hx => absurd hx List.not_mem_nil) (fun _ => Nat.not_lt.mp hfull) (fun hlarge => ?_)
        rfl
      have hzero : s.curPclBufferPtr = 0 := by lia
      have hempty : s.pending = [] := by
        rw [hpending, hzero, slice_zero]
      refine ⟨hzero, ?_, fun h => absurd hempty h⟩
      rw [State.flushed, if_pos hempty, List.append_nil]
    rw [if_pos hfull]
    by_cases hempty : s.pending = []
    · -- nothing to write out
      rw [hempty, sendBuffer_nil]
      dsimp only
      rw [if_neg (not_not_intro rfl)]
      refine place_does (t := { s with curPclBufferPtr := 0 }) hbuffer hm rfl
        (List.append_nil _).symm (fun x hx => absurd hx List.not_mem_nil) (fun h => ?_)
        (fun _ => ⟨rfl, ?_, fun h => absurd hempty h⟩) ?_
      · show 0 + buf.length ≤ s.curPclBufferSize
        rw [Nat.zero_add]
        exact Nat.le_of_lt h
      · rw [State.flushed, if_pos hempty, List.append_nil]
      · rw [hempty, State.pending, hm]
        rfl
    rw [sendBuffer_eq s hempty]
    dsimp only
    by_cases hok : device s.sent s.pending = noError
    · rw [hok, if_neg (not_not_intro rfl)]
      refine place_does
        (t := { s with sent := s.sent ++ [⟨s.pending, noError⟩], curPclBufferPtr := 0 })
        hbuffer hm rfl rfl (fun x hx => ?_) (fun h => ?_) (fun _ => ⟨rfl, ?_, fun _ => hok⟩) ?_
      · rw [List.mem_singleton.mp hx]
      · show 0 + buf.length ≤ s.curPclBufferSize
        rw [Nat.zero_add]
        exact Nat.le_of_lt h
      · rw [State.flushed, if_neg hempty]
      · rw [accepted_append, accepted_singleton _ rfl]
        show accepted s.sent ++ s.pending ++ State.pending { s with sent := _, curPclBufferPtr := 0 }
          = accepted s.sent ++ s.pending
        rw [State.pending, hm]
        exact List.append_nil _
    · -- the failure of the write is returned
      rw [if_pos hok]
      refine ⟨⟨_, rfl, fun _ x hx _ => ?_, ?_⟩, fun _ => hptr, fun _ h => absurd h hok⟩
      · rw [List.mem_singleton.mp hx]
      · rintro ⟨-, -, -, haccept, -⟩
        exact absurd (haccept hempty) hok

theorem pending_eq_nil {s : State} (hptr : s.curPclBufferPtr = 0) : s.pending = [] := by
  rw [State.pending, hptr]
  cases s.pclBuffer with
  | none => rfl
  | some m => exact slice_zero m 0

theorem cleanup_does {s : State} : Does device s .cleanup (cleanup device s) := by
  have hnot : ¬ BypassFails device s .cleanup := id
  -- without a send the call delivers what was there
  have hidle : s.pending = [] →
      Does device s .cleanup (noError, { s with curPclBufferPtr := 0 }) := by
    intro hempty
    refine ⟨⟨[], (List.append_nil _).symm, fun _ x hx => absurd hx List.not_mem_nil,
      fun h => absurd h hnot⟩, fun _ => Nat.zero_le _, fun _ _ => ?_⟩
    rw [pending_eq_nil rfl, hempty]
    exact (List.append_nil _).symm
  rw [cleanup]
  cases hm : s.pclBuffer with
  | none =>
    dsimp only
    rw [← hm]
    exact hidle (by rw [State.pending, hm])
  | some m =>
    have hpending : s.pending = slice m 0 s.curPclBufferPtr := by
      rw [State.pending, hm]
    dsimp only
    rw [← hm, ← hpending]
    by_cases hpos : s.curPclBufferPtr > 0
    · have hne : s.pending ≠ [] := by
        intro h
        have hlen := congrArg List.length h
        rw [hpending, slice_length] at hlen
        exact absurd hlen (Nat.ne_of_gt hpos)
      rw [if_pos hpos, sendBuffer_eq s hne]
      refine ⟨⟨_, rfl, fun _ x hx _ => ?_, fun h => absurd h hnot⟩, fun _ => Nat.zero_le _,
        fun _ haccept => ?_⟩
      · rw [List.mem_singleton.mp hx]
      · dsimp only at haccept ⊢
        rw [accepted_append, accepted_singleton _ haccept]
        exact congrArg _ (pending_eq_nil rfl)
    · rw [if_neg hpos]
      exact hidle (pending_eq_nil (Nat.eq_zero_of_not_pos hpos))

theorem exec_does {s : State} (hs : s.Inside) (c : Call) : Does device s c (exec device s c) := by
  cases c with
  | send buf => exact send_does hs buf
  | cleanup => exact cleanup_does

/-! ## Runs -/

theorem Does.sends_eq {s : State} {c : Call} (h : Does device s c (exec device s c)) :
    s.sent ++ sends (stepOf (exec device) s c) = (exec device s c).2.sent := by
  obtain ⟨new, hnew, -⟩ := h.sent
  show s.sent ++ ((exec device s c).2.sent).drop s.sent.length = _
  rw [hnew, List.drop_left]

theorem returned_iff {s : State} (hs : s.Inside) (c : Call) :
    (∀ x ∈ sends (stepOf (exec device) s c), x.result ≠ noError →
      (exec device s c).1 = x.result) ↔ ¬ BypassFails device s c := by
  have hdoes : Does device s c (exec device s c) := exec_does hs c
  obtain ⟨new, hnew, hgood, hbad⟩ := hdoes.sent
  have hsends : sends (stepOf (exec device) s c) = new := by
    have hlog := hdoes.sends_eq
    rw [hnew] at hlog
    exact List.append_cancel_left hlog
  rw [hsends]
  constructor
  · intro hret hfails
    obtain ⟨x, hx, hne, hdrop⟩ := hbad hfails
    exact hne (hdrop ▸ hret x hx hne).symm
  · exact hgood

/-- As long as every call succeeds and drops nothing, all data is accepted or
pending; by induction on the calls. -/
theorem delivered_of_not_bypassFails {s : State} (hs : s.Inside) {calls : List Call}
    (hgood : ∀ t ∈ trace (exec device) s calls, ¬ BypassFails device t.before t.call)
    (hok : ∀ t ∈ trace (exec device) s calls, t.answer = noError) :
    accepted (final (exec device) s calls).sent ++ (final (exec device) s calls).pending
      = accepted s.sent ++ s.pending ++ calls.flatMap Call.bytes := by
  induction calls generalizing s with
  | nil => exact (List.append_nil _).symm
  | cons c calls ih =>
    have hgood' := List.forall_mem_cons.mp hgood
    have hok' := List.forall_mem_cons.mp hok
    have hdoes : Does device s c (exec device s c) := exec_does hs c
    have hstep := hdoes.delivered hgood'.1 hok'.1
    rw [final_cons, ih hdoes.inside hgood'.2 hok'.2, hstep, List.flatMap_cons,
      List.append_assoc _ c.bytes]

end Hplip.Hpcups.Encapsulator
