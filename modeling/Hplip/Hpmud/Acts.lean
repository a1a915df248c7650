import Hplip.Hpmud.ChannelIo
import Hplip.Lib.Runs

/-!
# What the channel functions do to a device

The channel functions are made of a few acts, each of which takes at most one packet off the
wire or puts one on it. The acts and the states in which they happen are a step relation; every
call of a channel function is a run of it.
-/

namespace Hplip.Hpmud

open Pieces Checked Runs

/-! ## Acts -/

inductive Request where
  | opening
  | closing
  | credit (n : UInt16)
  | creditRequest
  | socket
  deriving DecidableEq, Repr

def Request.code : Proto → Request → UInt8
  | _, .opening => 1
  | _, .closing => 2
  | _, .credit _ => 3
  | _, .creditRequest => 4
  | .mlc, .socket => 7
  | .dot4, .socket => 9

def Request.accept (p : Proto) (c : Nat) (d : Device) : Request → Except PacketFault Device
  | .opening => openAccepted p c d
  | .closing => .ok d
  | .credit n => .ok (creditAccepted c n d)
  | .creditRequest => creditRequestAccepted p c d
  | .socket =>
    match p with
    | .mlc => configAccepted c d
    | .dot4 => socketAccepted c d

/-- What the functions on channel `c` do: write a command, take a packet in the wait for a
command, take one in the wait for a reply or end it, take one in the wait for data or end it,
send a data packet, hand bytes to the client, empty the buffer. -/
inductive Act where
  | written (l : List UInt8)
  | command (c : Nat)
  | reply (c : Nat)
  | answer (c : Nat) (r : Request)
  | data (c : Nat)
  | last (c : Nat)
  | sent (c : Nat) (l : List UInt8)
  | cut (c size : Nat)
  | emptied (c : Nat)
  deriving DecidableEq, Repr

inductive Step (p : Proto) : Act → Device → Device → Prop
  | written (d : Device) (l : List UInt8) :
    Step p (.written l) d (vfWrite { d with buf := overwrite d.buf 0 l } l).2
  | command {c stat : Nat} {d d' : Device} (h : reverseCmd p d = .ok (stat, d')) :
    Step p (.command c) d d'
  | reply {c : Nat} {d d' : Device} (h : replyStep p d = .ok (.inl d')) : Step p (.reply c) d d'
  | answer {c stat : Nat} {r : Request} {d d₁ d' : Device} {good : Bool}
    (h : replyStep p d = .ok (.inr (stat, d₁))) (hgood : accepted (r.code p) stat d₁ = .ok good)
    (h' : (if good = false then .ok d₁ else r.accept p c d₁) = .ok d') :
    Step p (.answer c r) d d'
  | data {c : Nat} {d d' : Device} (h : dataStep p c d = .ok (.inl d')) : Step p (.data c) d d'
  | last {c n : Nat} {d d' : Device} (h : dataStep p c d = .ok (.inr (n, d'))) :
    Step p (.last c) d (dataRead c n d')
  | sent {c : Nat} {d : Device} (l : List UInt8) (hcredit : (d.channel c).h2pcredit ≠ 0) :
    Step p (.sent c l) d (sendData c l d).2
  | cut (d : Device) (c size : Nat) : Step p (.cut c size) d (cutBuf c size d).2
  | emptied (d : Device) (c : Nat) : Step p (.emptied c) d (emptied c d)

def Quiet (p : Proto) (a : Act) (d d' : Device) : Prop :=
  Step p a d d' ∧ ∀ c size, a ≠ .cut c size

/-! ## The functions are runs -/

section Reaches

variable {p : Proto} {c : Nat} {d : Device}

def ask (p : Proto) (c : Nat) (r : Request) (fields : List UInt8) (d : Device) :
    Except PacketFault (Nat × Device) := do
  let (good, d) ← request p (r.code p) fields d
  if good = false then return (1, d)
  let d ← r.accept p c d
  return (0, d)

theorem reverseReply_reaches {d₀ : Device} (h : Reaches (Quiet p) d₀ d) (c : Nat) :
    Gives (fun x => ∃ s, Reaches (Quiet p) d₀ s ∧ replyStep p s = .ok (.inr x))
      (reverseReply p d) := by
  refine iterate_gives (I := Reaches (Quiet p) d₀) ?_ ?_ _ h
  · intro s s' hs hstep
    exact hs.then ⟨.reply (c := c) hstep, nofun⟩
  · intro s x hs hstep
    exact ⟨s, hs, hstep⟩

theorem request_reaches (c : Nat) (r : Request) (fields : List UInt8) :
    Gives (fun x => (x.1 = false → Reaches (Quiet p) d x.2) ∧ (x.1 = true → ∃ s stat,
        Reaches (Quiet p) d s ∧ replyStep p s = .ok (.inr (stat, x.2))
          ∧ accepted (r.code p) stat x.2 = .ok true))
      (request p (r.code p) fields d) := by
  have hwritten : Reaches (Quiet p) d _ :=
    .of_step ⟨.written d (commandPacket p (r.code p) fields), nofun⟩
  refine Gives.ite (fun _ => Gives.pure ⟨fun _ => hwritten, nofun⟩) fun _ => ?_
  refine Gives.bind (reverseReply_reaches hwritten c) ?_
  rintro ⟨stat, d₁⟩ ⟨s, hs, hreply⟩
  refine Gives.bind (R := fun good => accepted (r.code p) stat d₁ = .ok good) (fun _ h => h) ?_
  intro good hgood
  refine Gives.pure ⟨?_, ?_⟩
  · rintro rfl
    exact hs.then ⟨.answer (c := c) hreply hgood (if_pos rfl), nofun⟩
  · rintro rfl
    exact ⟨s, stat, hs, hreply, hgood⟩

theorem ask_reaches (c : Nat) (r : Request) (fields : List UInt8) :
    Gives (fun x => Reaches (Quiet p) d x.2) (ask p c r fields d) := by
  refine Gives.bind (request_reaches c r fields) ?_
  rintro ⟨good, d₁⟩ ⟨hbad, hgood⟩
  refine Gives.ite (fun h => Gives.pure (hbad h)) fun h => ?_
  obtain ⟨s, stat, hs, hreply, haccepted⟩ := hgood (by simpa using h)
  refine Gives.bind (R := fun d' => r.accept p c d₁ = .ok d') (fun _ h => h) fun d' hd' => ?_
  exact Gives.pure (hs.then ⟨.answer hreply haccepted hd', nofun⟩)

theorem credit_reaches (n : UInt16) :
    Gives (fun x => Reaches (Quiet p) d x.2) (credit p c n d) :=
  ask_reaches c (.credit n) _

theorem creditRequest_reaches (n : UInt16) :
    Gives (fun x => Reaches (Quiet p) d x.2) (creditRequest p c n d) :=
  ask_reaches c .creditRequest _

theorem openChannel_reaches : Gives (fun x => Reaches (Quiet p) d x.2) (openChannel p c d) :=
  ask_reaches c .opening _

theorem closeChannel_reaches : Gives (fun x => Reaches (Quiet p) d x.2) (closeChannel p c d) :=
  ask_reaches c .closing _

theorem mlcConfigSocket_reaches :
    Gives (fun x => Reaches (Quiet .mlc) d x.2) (mlcConfigSocket c d) :=
  Gives.ite (fun _ => Gives.pure (.refl d)) fun _ => ask_reaches c .socket _

theorem dot4GetSocket_reaches (sn : List UInt8) :
    Gives (fun x => Reaches (Quiet .dot4) d x.2) (dot4GetSocket c sn d) :=
  ask_reaches c .socket sn

theorem mlcChannelOpen_reaches :
    Gives (fun x => Reaches (Quiet .mlc) d x.2) (mlcChannelOpen c d) := by
  refine Gives.bind mlcConfigSocket_reaches fun x hx => Gives.ite (fun _ => Gives.pure hx) fun _ => ?_
  refine Gives.bind openChannel_reaches fun y hy => ?_
  refine Gives.ite (fun _ => Gives.pure (hx.trans hy)) fun _ => ?_
  exact Gives.pure ((hx.trans hy).then ⟨.emptied _ c, nofun⟩)

theorem dot4ChannelOpen_reaches (mode : IoMode) (sn : List UInt8) :
    Gives (fun x => Reaches (Quiet .dot4) d x.2) (dot4ChannelOpen mode c sn d) := by
  refine Gives.bind (dot4GetSocket_reaches sn) fun x hx => ?_
  refine Gives.ite (fun _ => Gives.pure hx) fun _ => Gives.bind openChannel_reaches fun y hy => ?_
  refine Gives.ite (fun _ => Gives.pure (hx.trans hy)) fun _ => Gives.ite (fun _ => ?_) fun _ => ?_
  · refine Gives.bind (credit_reaches 2) fun z hz => ?_
    have hreach := (hx.trans hy).trans hz
    exact Gives.ite (fun _ => Gives.pure hreach) fun _ => Gives.pure (hreach.then ⟨.emptied _ c, nofun⟩)
  · exact Gives.pure ((hx.trans hy).then ⟨.emptied _ c, nofun⟩)

theorem callIf_reaches {d₁ : Device} {need : Prop} [Decidable need]
    {f : Device → Except PacketFault (Nat × Device)} (h : Reaches (Quiet p) d d₁)
    (hf : Gives (fun x => Reaches (Quiet p) d₁ x.2) (f d₁)) :
    Gives (fun x => Reaches (Quiet p) d x.2) (callIf need f d₁) :=
  Gives.ite (fun _ => hf.mono fun _ hx => h.trans hx) fun _ => Gives.ok (c := (0, d₁)) h

theorem channelRead_reaches (length : Nat) :
    Gives (fun x => (Reaches (Quiet p) d x.2 ∧ x.1.2 = [])
        ∨ ∃ s, Reaches (Quiet p) d s ∧ x.2 = (cutBuf c length s).2 ∧ x.1.2 = (cutBuf c length s).1)
      (channelRead p c length d) := by
  refine Gives.ite (fun _ => Gives.pure (.inl ⟨.refl d, rfl⟩)) fun _ => Gives.ite (fun _ => ?_) fun _ => ?_
  · exact Gives.pure (.inr ⟨d, .refl d, rfl, rfl⟩)
  · refine Gives.bind (callIf_reaches (.refl d) (credit_reaches 1)) fun x hx =>
      Gives.ite (fun _ => Gives.pure (.inl ⟨hx, rfl⟩)) fun _ => ?_
    refine Gives.bind (R := fun y : Nat × Device => Reaches (Quiet p) d (dataRead c y.1 y.2)) ?_ fun y hy => ?_
    · refine iterate_gives (I := Reaches (Quiet p) d) ?_ ?_ _ hx
      · intro s s' hs hstep
        exact hs.then ⟨.data hstep, nofun⟩
      · intro s y hs hstep
        exact hs.then ⟨.last hstep, nofun⟩
    · exact Gives.pure (.inr ⟨_, hy, rfl, rfl⟩)

def devOf : WriteState ⊕ (Bool × WriteState) → Device
  | .inl s => s.dev
  | .inr x => x.2.dev

section Write

variable {s : WriteState} {dlen : Int}

theorem writePacket_reaches (hs : Reaches (Quiet p) d s.dev)
    (hcredit : (s.dev.channel c).h2pcredit ≠ 0) :
    Gives (fun x => Reaches (Quiet p) d (devOf x)) (writePacket c dlen s) := by
  refine Gives.require fun _ => Gives.ite (fun _ => ?_) fun _ => ?_
  · exact Gives.pure (hs.then ⟨.sent _ hcredit, nofun⟩)
  · exact Gives.pure (hs.then ⟨.sent _ hcredit, nofun⟩)

theorem mlcWriteStep_reaches (hs : Reaches (Quiet .mlc) d s.dev) :
    Gives (fun x => Reaches (Quiet .mlc) d (devOf x)) (mlcWriteStep c dlen s) := by
  refine Gives.ite (fun _ => Gives.pure hs) fun _ =>
    Gives.bind (callIf_reaches hs (creditRequest_reaches 1)) fun x hx => ?_
  · refine Gives.ite (fun _ => Gives.pure hx) fun _ => Gives.ite (fun _ => ?_) fun hcredit => ?_
    · refine Gives.bind (R := fun y : Nat × Device => Reaches (Quiet .mlc) d y.2) ?_ fun y hy => ?_
      · intro y hy
        exact hx.then ⟨.command (c := c) hy, nofun⟩
      · refine Gives.ite (fun _ => Gives.ite (fun _ => Gives.pure hy) fun _ => ?_) fun hcredit => ?_
        · exact Gives.ite (fun _ => Gives.pure hy) fun _ => Gives.pure hy
        · exact writePacket_reaches hy hcredit
    · exact writePacket_reaches hx hcredit

theorem dot4WriteStep_reaches (hs : Reaches (Quiet .dot4) d s.dev) :
    Gives (fun x => Reaches (Quiet .dot4) d (devOf x)) (dot4WriteStep c dlen s) := by
  refine Gives.ite (fun _ => Gives.pure hs) fun _ =>
    Gives.bind (callIf_reaches hs (creditRequest_reaches 1)) fun x hx => ?_
  · refine Gives.ite (fun _ => Gives.pure hx) fun _ => Gives.ite (fun _ => ?_) fun _ => ?_
    · exact Gives.ite (fun _ => Gives.pure hx) fun _ => Gives.pure hx
    · refine Gives.ite (fun _ => ?_) fun hcredit => writePacket_reaches hx hcredit
      refine Gives.bind (R := fun y : Nat × Device => Reaches (Quiet .dot4) d y.2) ?_ fun y hy => ?_
      · intro y hy
        exact hx.then ⟨.command (c := c) hy, nofun⟩
      · refine Gives.ite (fun _ => Gives.ite (fun _ => Gives.pure hy) fun _ => Gives.pure hy) ?_
        exact fun hcredit => writePacket_reaches hy hcredit

theorem channelWrite_reaches (fuel : Nat) (mode : IoMode) (l : List UInt8) :
    Gives (fun x => Reaches (Quiet p) d x.2.dev) (channelWrite p fuel c mode l d) := by
  have hstep : ∀ s r, Reaches (Quiet p) d s.dev →
      writeStep p c ((d.channel c).h2psize.toNat - headerSize) s = .ok r →
        Reaches (Quiet p) d (devOf r) := by
    intro s r hs hr
    cases p with
    | mlc => exact mlcWriteStep_reaches hs r hr
    | dot4 => exact dot4WriteStep_reaches hs r hr
  refine iterate_gives (I := fun s : WriteState => Reaches (Quiet p) d s.dev) ?_ ?_ fuel (.refl d)
  · intro s s' hs hr
    exact hstep s _ hs hr
  · intro s x hs hr
    exact hstep s _ hs hr

end Write

end Reaches

/-! ## Calls -/

/-- What a client does: open and close a channel, read from it and write to it, and the
functions below that issue credit and ask for it. -/
inductive Call where
  | mlcOpen (c : Nat)
  | dot4Open (mode : IoMode) (c : Nat) (sn : List UInt8)
  | close (c : Nat)
  | read (c length : Nat)
  | write (fuel c : Nat) (mode : IoMode) (l : List UInt8)
  | credit (c : Nat) (n : UInt16)
  | creditRequest (c : Nat) (n : UInt16)
  deriving DecidableEq, Repr

def Call.run (p : Proto) (d : Device) : Call → Except PacketFault Device
  | .mlcOpen c => (·.2) <$> mlcChannelOpen c d
  | .dot4Open mode c sn => (·.2) <$> dot4ChannelOpen mode c sn d
  | .close c => (·.2) <$> closeChannel p c d
  | .read c length => (·.2) <$> channelRead p c length d
  | .write fuel c mode l => (·.2.dev) <$> channelWrite p fuel c mode l d
  | .credit c n => (·.2) <$> Hpmud.credit p c n d
  | .creditRequest c n => (·.2) <$> Hpmud.creditRequest p c n d

def Call.Of (p : Proto) : Call → Prop
  | .mlcOpen _ => p = .mlc
  | .dot4Open _ _ _ => p = .dot4
  | _ => True

theorem map_gives {α β : Type} {f : α → β} {Q : β → Prop} {x : Except PacketFault α}
    (h : Gives (fun a => Q (f a)) x) : Gives Q (f <$> x) := by
  intro b hb
  cases x with
  | error e => cases hb
  | ok a =>
    cases hb
    exact h a rfl

theorem call_quiet {p : Proto} {call : Call} (hcall : call.Of p)
    (hread : ∀ c length, call ≠ .read c length) (d : Device) :
    Gives (Reaches (Quiet p) d) (call.run p d) := by
  cases call with
  | mlcOpen c =>
    obtain rfl : p = .mlc := hcall
    exact map_gives mlcChannelOpen_reaches
  | dot4Open mode c sn =>
    obtain rfl : p = .dot4 := hcall
    exact map_gives (dot4ChannelOpen_reaches mode sn)
  | close c => exact map_gives closeChannel_reaches
  | read c length => exact absurd rfl (hread c length)
  | write fuel c mode l => exact map_gives (channelWrite_reaches fuel mode l)
  | credit c n => exact map_gives (credit_reaches n)
  | creditRequest c n => exact map_gives (creditRequest_reaches n)

theorem Quiet.reaches {p : Proto} {d d' : Device} (h : Reaches (Quiet p) d d') :
    Reaches (Step p) d d' :=
  h.imp fun _ hrun => hrun.mono fun _ _ _ hstep => hstep.1

theorem call_reaches {p : Proto} {call : Call} (hcall : call.Of p) (d : Device) :
    Gives (Reaches (Step p) d) (call.run p d) := by
  by_cases hread : ∀ c length, call ≠ .read c length
  · exact (call_quiet hcall hread d).mono fun _ => Quiet.reaches
  · push Not at hread
    obtain ⟨c, length, rfl⟩ := hread
    refine map_gives ((channelRead_reaches length).mono fun x hx => ?_)
    obtain ⟨h, -⟩ | ⟨s, h, hx, -⟩ := hx
    · exact Quiet.reaches h
    · rw [hx]
      exact (Quiet.reaches h).then (.cut s c length)

end Hplip.Hpmud
