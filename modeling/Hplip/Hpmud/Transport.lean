import Hplip.Lib.Checked
import Hplip.Lib.Pieces
import Mathlib.Logic.Function.Basic

/-!
# MLC and IEEE 1284.4 packets from the peripheral

The functions that take packets off the wire: one that executes a command of the peripheral,
one that waits for a command, one that waits for a reply and one that waits for data. Both
protocols have the same headers and nearly the same functions; where they differ the
protocol decides. Every access is checked: a fault says that the code would leave a buffer,
copy a negative size, index past the channels, or decide on a byte that is not one of the
packet it looks at.
-/

namespace Hplip.Hpmud

open Pieces Checked

/-! ## Devices -/

def bufferSize : Nat := 16384

def channelMax : Nat := 47

def headerSize : Nat := 6

inductive Proto where
  | mlc
  | dot4
  deriving DecidableEq, Repr

inductive PacketFault where
  | size
  | bounds
  | index
  | stale
  | stuck
  deriving DecidableEq, Repr

structure Channel where
  sockid : UInt8
  h2pcredit : UInt16
  p2hcredit : UInt16
  h2psize : UInt16
  p2hsize : UInt16
  rbuf : Nat → UInt8
  rindex : Nat
  rcnt : Nat

/-- A device: its channels, the buffer of the function that waits for a packet, the cells of
the buffer in use that hold a byte of the packet, and the two directions of the wire.
`writes` says how the next writes end; when it is used up they succeed. -/
structure Device where
  channel : Nat → Channel
  buf : Nat → UInt8
  got : Nat → Bool
  input : List (Event UInt8)
  writes : List Bool
  output : List (List UInt8)

inductive Ref where
  | own
  | rbuf (c : Nat)
  deriving DecidableEq

def Device.cells (d : Device) : Ref → Nat → UInt8
  | .own => d.buf
  | .rbuf c => (d.channel c).rbuf

def Device.setChannel (d : Device) (c : Nat) (ch : Channel) : Device :=
  { d with channel := Function.update d.channel c ch }

def Device.setCells (d : Device) (b : Nat → UInt8) : Ref → Device
  | .own => { d with buf := b }
  | .rbuf c => d.setChannel c { d.channel c with rbuf := b }

def overwrite (b : Nat → UInt8) (off : Nat) (l : List UInt8) : Nat → UInt8 :=
  fun i => if off ≤ i ∧ i < off + l.length then l.getD (i - off) 0 else b i

def marked (got : Nat → Bool) (off n : Nat) : Nat → Bool :=
  fun i => decide (off ≤ i ∧ i < off + n) || got i

def be16 (b : Nat → UInt8) (i : Nat) : Nat := (b i).toNat * 256 + (b (i + 1)).toNat

def Device.receive (d : Device) (r : Ref) (off : Nat) (l : List UInt8) : Device :=
  { d.setCells (overwrite (d.cells r) off l) r with got := marked d.got off l.length }

/-- `while (size > 0) { len = read(fd, buf, size, ..); size -= len; buf += len; }`: how many
bytes came before the time was up. -/
def readInto (d : Device) (r : Ref) (off size : Nat) : Except PacketFault (Nat × Device) := do
  require (off + size ≤ bufferSize) .bounds
  let l := (pull d.input size).1.flatten
  return (l.length, { d.receive r off l with input := (pull d.input size).2 })

/-- `(pd->vf.write)(fd, buf, size, ..) == size` -/
def vfWrite (d : Device) (l : List UInt8) : Bool × Device :=
  match d.writes with
  | [] => (true, { d with output := d.output ++ [l] })
  | true :: ws => (true, { d with writes := ws, output := d.output ++ [l] })
  | false :: ws => (false, { d with writes := ws })

/-! ## Commands of the peripheral -/

/-- The first `n` cells. -/
def front (b : Nat → UInt8) (n : Nat) : List UInt8 := (List.range n).map b

/-- The reply is made in the buffer and written; how the write ends is only logged. -/
def forwardReply (d : Device) (r : Ref) (reply : List UInt8) : Device :=
  (vfWrite (d.setCells (overwrite (d.cells r) 0 reply) r) reply).2

/-- The header of a reply of `n` bytes: the sockets stay, 1284.4 sets credit and control. -/
def replyHeader (p : Proto) (b : Nat → UInt8) (n : Nat) : List UInt8 :=
  match p with
  | .mlc => [b 0, b 1, 0, n.toUInt8, b 4, b 5]
  | .dot4 => [b 0, b 1, 0, n.toUInt8, 1, 0]

def creditReply (p : Proto) (b : Nat → UInt8) (sockid : UInt8) : List UInt8 :=
  match p with
  | .mlc => replyHeader .mlc b 8 ++ [b 6 ||| 0x80, 0]
  | .dot4 => replyHeader .dot4 b 10 ++ [b 6 ||| 0x80, 0, sockid, sockid]

def creditRequestReply (p : Proto) (b : Nat → UInt8) : List UInt8 :=
  match p with
  | .mlc => replyHeader .mlc b 10 ++ [b 6 ||| 0x80, 0, 0, 0]
  | .dot4 => replyHeader .dot4 b 12 ++ [b 6 ||| 0x80, 0, b 8, b 8, 0, 0]

def unexpectedReply (p : Proto) (b : Nat → UInt8) : List UInt8 :=
  replyHeader p b 8 ++ [b 6 ||| 0x80, 1]

def storePacket (r : Ref) (d : Device) : Except PacketFault (Nat × Device) := do
  let b := d.cells r
  let c := (b 0).toNat
  require (c < channelMax) .index
  let ch := d.channel c
  if ch.p2hcredit = 0 then return (0, d)
  let size : Int := be16 b 2 - headerSize
  if (bufferSize : Int) - ch.rcnt < size then return (0, d)
  require (0 ≤ size) .size
  let n := size.toNat
  require (headerSize + n ≤ bufferSize ∧ ch.rcnt + n ≤ bufferSize) .bounds
  return (0, d.setChannel c { ch with
    rbuf := overwrite ch.rbuf ch.rcnt ((List.range n).map fun i => b (headerSize + i))
    rcnt := ch.rcnt + n
    h2pcredit := ch.h2pcredit + (b 4).toUInt16
    p2hcredit := ch.p2hcredit - 1 })

def execCommand (p : Proto) (r : Ref) (d : Device) : Except PacketFault (Nat × Device) := do
  require (d.got 6 = true) .stale
  let b := d.cells r
  if b 6 = 3 then do
    require (d.got 7 = true ∧ d.got 9 = true ∧ d.got 10 = true) .stale
    let c := (b 7).toNat
    require (c < channelMax) .index
    let ch := d.channel c
    let d := d.setChannel c { ch with h2pcredit := ch.h2pcredit + (be16 b 9).toUInt16 }
    return (0, forwardReply d r (creditReply p b ch.sockid))
  else if b 6 = 4 then do
    require (p = .mlc ∨ d.got 8 = true) .stale
    return (0, forwardReply d r (creditRequestReply p b))
  else if b 6 = 0x7f then return (1, d)
  else return (0, forwardReply d r (unexpectedReply p b))

/-- `MlcExecReverseCmd`, `Dot4ExecReverseCmd` -/
def execReverseCmd (p : Proto) (r : Ref) (d : Device) : Except PacketFault (Nat × Device) :=
  if ¬ (d.cells r 0 = 0 ∧ d.cells r 1 = 0) then
    if d.cells r 0 = d.cells r 1 then storePacket r d else .ok (0, d)
  else execCommand p r d

def mlcExecReverseCmd : Ref → Device → Except PacketFault (Nat × Device) := execReverseCmd .mlc

def dot4ExecReverseCmd : Ref → Device → Except PacketFault (Nat × Device) := execReverseCmd .dot4

/-! ## Waiting for a command -/

/-- The data field of a packet behind its header, none if the length says so: whether all
of it came. -/
def readField (d : Device) (r : Ref) (off pklen : Nat) :
    Except PacketFault (Bool × Device) :=
  if headerSize < pklen then do
    let (n, d) ← readInto d r off (pklen - headerSize)
    return (n = pklen - headerSize, d)
  else .ok (true, d)

/-- `MlcReverseCmd`, `Dot4ReverseCmd` -/
def reverseCmd (p : Proto) (d : Device) : Except PacketFault (Nat × Device) := do
  let (n, d) ← readInto { d with got := fun _ => false } .own 0 headerSize
  if n ≠ headerSize then return (1, d)
  let pklen := be16 d.buf 2
  if bufferSize < pklen then return (1, d)
  let (whole, d) ← readField d .own headerSize pklen
  if whole = false then return (1, d)
  execReverseCmd p .own d

def mlcReverseCmd : Device → Except PacketFault (Nat × Device) := reverseCmd .mlc

def dot4ReverseCmd : Device → Except PacketFault (Nat × Device) := reverseCmd .dot4

/-! ## Waiting for a reply -/

/-- The "off-by-one" firmware: the header is moved down by one byte and one more byte read.
`none` means that the wait ends with an error. -/
def firmwareHack (d : Device) : Except PacketFault (Option Nat × Device) := do
  let d := { d with
    buf := fun i => if i < headerSize - 1 then d.buf (i + 1) else d.buf i
    got := fun i => if i < headerSize - 1 then d.got (i + 1) else d.got i }
  let pklen := be16 d.buf 2
  if pklen = 0 ∨ bufferSize < pklen then return (none, d)
  let (n, d) ← readInto d .own (headerSize - 1) 1
  if n ≠ 1 then return (none, d)
  return (some pklen, d)

def replyBody (p : Proto) (pklen : Nat) (d : Device) :
    Except PacketFault (Device ⊕ (Nat × Device)) := do
  let (whole, d) ← readField d .own headerSize pklen
  if whole = false then return .inr (1, d)
  require (d.got 6 = true) .stale
  if d.buf 6 &&& 0x80 ≠ 0 then return .inr (0, d)
  let (stat, d) ← execReverseCmd p .own d
  if stat ≠ 0 then return .inr (stat, d)
  return .inl d

def replyStep (p : Proto) (d : Device) : Except PacketFault (Device ⊕ (Nat × Device)) := do
  let (n, d) ← readInto { d with got := fun _ => false } .own 0 headerSize
  if n ≠ headerSize then return .inr (2, d)
  let pklen := be16 d.buf 2
  if bufferSize < pklen then return .inr (1, d)
  if pklen = 0 then
    match p with
    | .dot4 => return .inr (1, d)
    | .mlc => do
      let (len?, d) ← firmwareHack d
      match len? with
      | none => return .inr (1, d)
      | some pklen => replyBody .mlc pklen d
  else replyBody p pklen d

def rounds (d : Device) : Nat := (flat d.input).length + 1

/-- `MlcReverseReply`, `Dot4ReverseReply` -/
def reverseReply (p : Proto) (d : Device) : Except PacketFault (Nat × Device) :=
  iterate (replyStep p) .stuck (rounds d) d

def mlcReverseReply : Device → Except PacketFault (Nat × Device) := reverseReply .mlc

def dot4ReverseReply : Device → Except PacketFault (Nat × Device) := reverseReply .dot4

/-! ## Waiting for data -/

/-- The loop that reads a command among the data: `total=len`, so that every piece but the
first is put behind the length of the piece before it. What it returns is `total`. -/
def placeCommand (d : Device) (r : Ref) (total : Nat) : List (List UInt8) → Nat × Device
  | [] => (total, d)
  | l :: ps => placeCommand (d.receive r total l) r l.length ps

def commandAmongData (p : Proto) (r : Ref) (pklen : Nat) (d : Device) :
    Except PacketFault (Device ⊕ (Nat × Device)) := do
  let size := pklen - headerSize
  require (size = 0 ∨ headerSize + size ≤ bufferSize) .bounds
  let ps := (pull d.input size).1
  let (total, d) := placeCommand { d with input := (pull d.input size).2 } r headerSize ps
  if ps.flatten.length ≠ size then return .inr (total, d)
  let (_, d) ← execReverseCmd p r d
  return .inl d

def dataAside (r : Ref) (pklen : Nat) (d : Device) :
    Except PacketFault (Device ⊕ (Nat × Device)) := do
  let c := (d.cells r 0).toNat
  require (c < channelMax) .index
  let ch := d.channel c
  if ch.p2hcredit = 0 then return .inr (headerSize, d)
  let size : Int := pklen - headerSize
  if (bufferSize : Int) - ch.rcnt < size then return .inr (headerSize, d)
  let n := pklen - headerSize
  require (n = 0 ∨ ch.rcnt + n ≤ bufferSize) .bounds
  let l := (pull d.input n).1.flatten
  let d := { d.setChannel c { ch with rbuf := overwrite ch.rbuf ch.rcnt l } with
    input := (pull d.input n).2 }
  if l.length ≠ n then return .inr (l.length, d)
  let ch := d.channel c
  return .inl (d.setChannel c { ch with
    rcnt := ch.rcnt + n
    h2pcredit := ch.h2pcredit + (d.cells r 4).toUInt16
    p2hcredit := ch.p2hcredit - 1 })

def ownData (pc : Nat) (pklen : Nat) (d : Device) :
    Except PacketFault (Device ⊕ (Nat × Device)) := do
  let ch := d.channel pc
  let d := d.setChannel pc { ch with h2pcredit := ch.h2pcredit + (ch.rbuf 4).toUInt16 }
  if headerSize < pklen then
    let (n, d) ← readInto d (.rbuf pc) 0 (pklen - headerSize)
    return .inr (n, d)
  else return .inr (0, d)

/-- One packet in the wait for data; the buffer is the one of the channel. -/
def dataStep (p : Proto) (pc : Nat) (d : Device) :
    Except PacketFault (Device ⊕ (Nat × Device)) := do
  let (n, d) ← readInto { d with got := fun _ => false } (.rbuf pc) 0 headerSize
  if n ≠ headerSize then return .inr (n, d)
  let b := (d.channel pc).rbuf
  let pklen := be16 b 2
  if headerSize + bufferSize < pklen then return .inr (headerSize, d)
  if b 0 ≠ (d.channel pc).sockid ∧ b 1 ≠ (d.channel pc).sockid then
    if b 0 = 0 ∧ b 1 = 0 then commandAmongData p (.rbuf pc) pklen d
    else if b 0 = b 1 then dataAside (.rbuf pc) pklen d
    else return .inr (headerSize, d)
  else ownData pc pklen d

/-- `MlcReverseData`, `Dot4ReverseData`: how many bytes are in the channel's buffer. -/
def reverseData (p : Proto) (pc : Nat) (d : Device) : Except PacketFault (Nat × Device) :=
  iterate (dataStep p pc) .stuck (rounds d) d

def mlcReverseData : Nat → Device → Except PacketFault (Nat × Device) := reverseData .mlc

def dot4ReverseData : Nat → Device → Except PacketFault (Nat × Device) := reverseData .dot4

end Hplip.Hpmud
