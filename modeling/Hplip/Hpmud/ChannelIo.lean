import Hplip.Hpmud.PacketSafety

/-!
# Channels over MLC and IEEE 1284.4

What reads and writes a channel: commands to the peripheral with the wait for their replies,
data packets to the peripheral, and the loops of the channel functions. Both protocols have
the same functions; the bytes of the commands and the places in the replies differ.
-/

namespace Hplip.Hpmud

open Pieces Checked

/-! ## Commands -/

def word (n : Nat) : List UInt8 := [(n / 256).toUInt8, n.toUInt8]

def commandPacket (p : Proto) (code : UInt8) (fields : List UInt8) : List UInt8 :=
  match p with
  | .mlc => [0, 0] ++ word (7 + fields.length) ++ [0, 0] ++ code :: fields
  | .dot4 => [0, 0] ++ word (7 + fields.length) ++ [1, 0] ++ code :: fields

/-- `(stat != 0) || (pReply->cmd != (0x80 | code)) || (pReply->result != 0)`, negated. -/
def accepted (code : UInt8) (stat : Nat) (d : Device) : Except PacketFault Bool := do
  if stat ≠ 0 then return false
  if d.buf 6 ≠ 0x80 ||| code then return false
  require (d.got 7 = true) .stale
  return decide (d.buf 7 = 0)

/-- A command is written and its reply waited for: whether it is a good one. -/
def request (p : Proto) (code : UInt8) (fields : List UInt8) (d : Device) :
    Except PacketFault (Bool × Device) := do
  let l := commandPacket p code fields
  let (ok, d) := vfWrite { d with buf := overwrite d.buf 0 l } l
  if ok = false then return (false, d)
  let (stat, d) ← reverseReply p d
  let good ← accepted code stat d
  return (good, d)

def replyWord (d : Device) (i : Nat) : Except PacketFault Nat := do
  require (d.got i = true ∧ d.got (i + 1) = true) .stale
  return be16 d.buf i

/-- What a good reply to `MlcCredit`, `Dot4Credit` changes. -/
def creditAccepted (c : Nat) (n : UInt16) (d : Device) : Device :=
  d.setChannel c { d.channel c with p2hcredit := (d.channel c).p2hcredit + n }

/-- `MlcCredit`, `Dot4Credit` -/
def credit (p : Proto) (c : Nat) (n : UInt16) (d : Device) :
    Except PacketFault (Nat × Device) := do
  let s := (d.channel c).sockid
  let (good, d) ← request p 3 ([s, s] ++ word n.toNat) d
  if good = false then return (1, d)
  return (0, creditAccepted c n d)

def grantOffset : Proto → Nat
  | .mlc => 8
  | .dot4 => 10

/-- What a good reply to `MlcCreditRequest`, `Dot4CreditRequest` changes. -/
def creditRequestAccepted (p : Proto) (c : Nat) (d : Device) : Except PacketFault Device := do
  let n ← replyWord d (grantOffset p)
  return d.setChannel c { d.channel c with h2pcredit := (d.channel c).h2pcredit + n.toUInt16 }

/-- `MlcCreditRequest`, `Dot4CreditRequest`: 1284.4 asks for as much as there can be. -/
def creditRequest (p : Proto) (c : Nat) (n : UInt16) (d : Device) :
    Except PacketFault (Nat × Device) := do
  let s := (d.channel c).sockid
  let asked := match p with
    | .mlc => n.toNat
    | .dot4 => 0xffff
  let (good, d) ← request p 4 ([s, s] ++ word asked) d
  if good = false then return (1, d)
  let d ← creditRequestAccepted p c d
  return (0, d)

/-- What a good reply to `MlcOpenChannel`, `Dot4OpenChannel` changes. -/
def openAccepted (p : Proto) (c : Nat) (d : Device) : Except PacketFault Device :=
  match p with
  | .mlc => do
    let n ← replyWord d 8
    return d.setChannel c { d.channel c with h2pcredit := n.toUInt16 }
  | .dot4 => do
    let h2psize ← replyWord d 10
    let p2hsize ← replyWord d 12
    let n ← replyWord d 16
    return d.setChannel c { d.channel c with
      h2psize := h2psize.toUInt16
      p2hsize := p2hsize.toUInt16
      h2pcredit := n.toUInt16 }

/-- `MlcOpenChannel`, `Dot4OpenChannel` -/
def openChannel (p : Proto) (c : Nat) (d : Device) : Except PacketFault (Nat × Device) := do
  let s := (d.channel c).sockid
  let sizes := match p with
    | .mlc => word 0
    | .dot4 => word bufferSize ++ word bufferSize ++ word 0xffff
  let (good, d) ← request p 1 ([s, s] ++ sizes) d
  if good = false then return (1, d)
  let d ← openAccepted p c d
  return (0, d)

/-- `MlcCloseChannel`, `Dot4CloseChannel` -/
def closeChannel (p : Proto) (c : Nat) (d : Device) : Except PacketFault (Nat × Device) := do
  let s := (d.channel c).sockid
  let (good, d) ← request p 2 [s, s] d
  if good = false then return (1, d)
  return (0, d)

/-- What a good reply to `MlcConfigSocket` changes. -/
def configAccepted (c : Nat) (d : Device) : Except PacketFault Device := do
  let h2psize ← replyWord d 8
  let p2hsize ← replyWord d 10
  return d.setChannel c { d.channel c with
    h2psize := h2psize.toUInt16
    p2hsize := p2hsize.toUInt16 }

def mlcConfigSocket (c : Nat) (d : Device) : Except PacketFault (Nat × Device) := do
  if (d.channel c).h2psize ≠ 0 then return (0, d)
  let (good, d) ← request .mlc 7
    ([(d.channel c).sockid] ++ word bufferSize ++ word bufferSize ++ [0]) d
  if good = false then return (1, d)
  let d ← configAccepted c d
  return (0, d)

/-- What a good reply to `Dot4GetSocket` changes. -/
def socketAccepted (c : Nat) (d : Device) : Except PacketFault Device := do
  require (d.got 8 = true) .stale
  return d.setChannel c { d.channel c with sockid := d.buf 8 }

/-- `Dot4GetSocket`: the socket of a service name. -/
def dot4GetSocket (c : Nat) (sn : List UInt8) (d : Device) :
    Except PacketFault (Nat × Device) := do
  let (good, d) ← request .dot4 9 sn d
  if good = false then return (1, d)
  let d ← socketAccepted c d
  return (0, d)

def callIf (need : Prop) [Decidable need] (f : Device → Except PacketFault (Nat × Device))
    (d : Device) : Except PacketFault (Nat × Device) :=
  if need then f d else .ok (0, d)

/-! ## Opening -/

/-- `pc->rcnt = pc->rindex = 0` -/
def emptied (c : Nat) (d : Device) : Device :=
  d.setChannel c { d.channel c with rcnt := 0, rindex := 0 }

/-- HPMUD_RAW_MODE and the like, as far as the channel functions look at it. -/
inductive IoMode where
  | normal
  | miser
  | phoenix
  deriving DecidableEq, Repr

/-- `musb_mlc_channel_open` once the transport is up: whether it succeeds. -/
def mlcChannelOpen (c : Nat) (d : Device) : Except PacketFault (Bool × Device) := do
  let (stat, d) ← mlcConfigSocket c d
  if stat ≠ 0 then return (false, d)
  let (stat, d) ← openChannel .mlc c d
  if stat ≠ 0 then return (false, d)
  return (true, emptied c d)

/-- `musb_dot4_channel_open` once the transport is up: whether it succeeds. -/
def dot4ChannelOpen (mode : IoMode) (c : Nat) (sn : List UInt8) (d : Device) :
    Except PacketFault (Bool × Device) := do
  let (stat, d) ← dot4GetSocket c sn d
  if stat ≠ 0 then return (false, d)
  let (stat, d) ← openChannel .dot4 c d
  if stat ≠ 0 then return (false, d)
  if mode = .phoenix then
    let (stat, d) ← credit .dot4 c 2 d
    if stat ≠ 0 then return (false, d)
    return (true, emptied c d)
  else return (true, emptied c d)

/-! ## Reading -/

def Channel.pending (ch : Channel) : List UInt8 :=
  (List.range ch.rcnt).map fun i => ch.rbuf (ch.rindex + i)

def cutBuf (c : Nat) (size : Nat) (d : Device) : List UInt8 × Device :=
  let ch := d.channel c
  if size < ch.rcnt then
    ((List.range size).map fun i => ch.rbuf (ch.rindex + i),
      d.setChannel c { ch with rindex := ch.rindex + size, rcnt := ch.rcnt - size })
  else
    ((List.range ch.rcnt).map fun i => ch.rbuf (ch.rindex + i),
      d.setChannel c { ch with rindex := 0, rcnt := 0 })

def dataRead (c : Nat) (n : Nat) (d : Device) : Device :=
  d.setChannel c { d.channel c with
    rcnt := n
    p2hcredit := if n ≠ 0 then (d.channel c).p2hcredit - 1 else (d.channel c).p2hcredit }

/-- `musb_mlc_channel_read`, `musb_dot4_channel_read`: whether it succeeds and the bytes. -/
def channelRead (p : Proto) (c : Nat) (length : Nat) (d : Device) :
    Except PacketFault ((Bool × List UInt8) × Device) := do
  if (d.channel c).p2hsize = 0 then return ((false, []), d)
  if (d.channel c).rcnt ≠ 0 then return ((true, (cutBuf c length d).1), (cutBuf c length d).2)
  let (stat, d) ← callIf ((d.channel c).p2hcredit = 0) (credit p c 1) d
  if stat ≠ 0 then return ((false, []), d)
  let (n, d) ← reverseData p c d
  let d := dataRead c n d
  return ((true, (cutBuf c length d).1), (cutBuf c length d).2)

/-! ## Writing -/

/-- `MlcForwardData`, `Dot4ForwardData` -/
def forwardData (c : Nat) (l : List UInt8) (d : Device) : Nat × Device :=
  let s := (d.channel c).sockid
  let (ok, d) := vfWrite d ([s, s] ++ word (headerSize + l.length) ++ [0, 0])
  if ok = false then (1, d)
  else
    let (ok, d) := vfWrite d l
    if ok = false then (1, d) else (0, d)

def sendData (c : Nat) (l : List UInt8) (d : Device) : Bool × Device :=
  let (stat, d) := forwardData c l d
  if stat ≠ 0 then (false, d)
  else
    (true, d.setChannel c { d.channel c with h2pcredit := (d.channel c).h2pcredit - 1 })

def exceptionSecTimeout : Nat := 45

structure WriteState where
  dev : Device
  mode : IoMode
  /-- what is not written yet -/
  rest : List UInt8
  cnt : Nat
  wrote : Nat

def writePacket (c : Nat) (dlen : Int) (s : WriteState) :
    Except PacketFault (WriteState ⊕ (Bool × WriteState)) := do
  let len : Int := if dlen < s.rest.length then dlen else s.rest.length
  require (0 ≤ len) .size
  let (sent, d) := sendData c (s.rest.take len.toNat) s.dev
  if sent = false then return .inr (false, { s with dev := d })
  return .inl { s with
    dev := d
    rest := s.rest.drop len.toNat
    wrote := s.wrote + len.toNat
    cnt := 0 }

/-- The body of the loop of `musb_mlc_channel_write`. -/
def mlcWriteStep (c : Nat) (dlen : Int) (s : WriteState) :
    Except PacketFault (WriteState ⊕ (Bool × WriteState)) := do
  if s.rest = [] then return .inr (true, s)
  let (stat, d) ← callIf ((s.dev.channel c).h2pcredit = 0 ∧ s.mode = .miser)
    (creditRequest .mlc c 1) s.dev
  if stat ≠ 0 then return .inr (false, { s with dev := d })
  if (d.channel c).h2pcredit = 0 then
    let (ret, d) ← reverseCmd .mlc d
    if (d.channel c).h2pcredit = 0 then
      if ret = 0 then return .inl { s with dev := d }
      if s.mode ≠ .miser then return .inl { s with dev := d, mode := .miser }
      return .inr (false, { s with dev := d })
    else writePacket c dlen { s with dev := d }
  else writePacket c dlen { s with dev := d }

/-- The body of the loop of `musb_dot4_channel_write`. -/
def dot4WriteStep (c : Nat) (dlen : Int) (s : WriteState) :
    Except PacketFault (WriteState ⊕ (Bool × WriteState)) := do
  if s.rest = [] then return .inr (true, s)
  let (stat, d) ← callIf ((s.dev.channel c).h2pcredit = 0 ∧ s.mode = .phoenix)
    (creditRequest .dot4 c 1) s.dev
  if stat ≠ 0 then return .inr (false, { s with dev := d })
  if ((s.dev.channel c).h2pcredit = 0 ∧ s.mode = .phoenix) ∧ (d.channel c).h2pcredit = 0 then
    if exceptionSecTimeout < s.cnt then
      return .inr (false, { s with dev := d, cnt := s.cnt + 1 })
    return .inl { s with dev := d, cnt := s.cnt + 1 }
  if (d.channel c).h2pcredit = 0 then
    let (ret, d) ← reverseCmd .dot4 d
    if (d.channel c).h2pcredit = 0 then
      if ret = 0 then return .inl { s with dev := d }
      return .inr (false, { s with dev := d })
    else writePacket c dlen { s with dev := d }
  else writePacket c dlen { s with dev := d }

def writeStep : Proto → Nat → Int → WriteState →
    Except PacketFault (WriteState ⊕ (Bool × WriteState))
  | .mlc => mlcWriteStep
  | .dot4 => dot4WriteStep

/-- `musb_mlc_channel_write`, `musb_dot4_channel_write`, for at most `fuel` turns of the
loop. -/
def channelWrite (p : Proto) (fuel : Nat) (c : Nat) (mode : IoMode) (l : List UInt8)
    (d : Device) : Except PacketFault (Bool × WriteState) :=
  let dlen : Int := (d.channel c).h2psize.toNat - headerSize
  iterate (writeStep p c dlen) .stuck fuel ⟨d, mode, l, 0, 0⟩

end Hplip.Hpmud
