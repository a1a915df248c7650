import Hplip.Hpmud.Transport

/-!
# Packets and the buffers of the host

A packet is what the peripheral makes of it: lengths, sockets and commands may be anything.
When do the functions that take packets off the wire stay within their buffers and their
channels, and decide on nothing but the bytes of the packet?
-/

namespace Hplip.Hpmud

open Pieces Checked

/-! ## What a packet shows -/

def Device.view (d : Device) (r : Ref) : Nat → Option UInt8 :=
  fun i => if d.got i = true then some (d.cells r i) else none

/-- Credit and fill of the channels, which decide what becomes of a data packet. -/
def Device.counts (d : Device) : Nat → UInt16 × Nat :=
  fun c => ((d.channel c).p2hcredit, (d.channel c).rcnt)

def byteAt (v : Nat → Option UInt8) (i : Nat) : UInt8 := (v i).getD 0

def wordAt (v : Nat → Option UInt8) (i : Nat) : Nat :=
  (byteAt v i).toNat * 256 + (byteAt v (i + 1)).toNat

/-- A command shows its code, a credit command its socket and its credit as well. -/
def CommandOk (p : Proto) (v : Nat → Option UInt8) : Prop :=
  v 6 ≠ none
    ∧ (byteAt v 6 = 3 → (v 7 ≠ none ∧ v 9 ≠ none ∧ v 10 ≠ none)
        ∧ (byteAt v 7).toNat < channelMax)
    ∧ (byteAt v 6 = 4 → p = .mlc ∨ v 8 ≠ none)

/-- A data packet names a channel. Where it would be stored it has a whole header and fits
in the buffer it came in. -/
def StoreOk (counts : Nat → UInt16 × Nat) (v : Nat → Option UInt8) : Prop :=
  (byteAt v 0).toNat < channelMax
    ∧ ((counts (byteAt v 0).toNat).1 ≠ 0
      → wordAt v 2 + (counts (byteAt v 0).toNat).2 ≤ bufferSize + headerSize
      → headerSize ≤ wordAt v 2 ∧ wordAt v 2 ≤ bufferSize)

/-- A packet that may be executed. -/
def ExecOk (p : Proto) (counts : Nat → UInt16 × Nat) (v : Nat → Option UInt8) : Prop :=
  if byteAt v 0 = 0 ∧ byteAt v 1 = 0 then CommandOk p v
  else byteAt v 0 = byteAt v 1 → StoreOk counts v

/-! ## Receiving -/

section Receive

variable {d : Device} {r : Ref} {off : Nat} {l : List UInt8}

@[simp] theorem cells_receive : (d.receive r off l).cells r = overwrite (d.cells r) off l := by
  cases r with
  | own => rfl
  | rbuf c => simp [Device.receive, Device.cells, Device.setCells, Device.setChannel]

@[simp] theorem got_receive : (d.receive r off l).got = marked d.got off l.length := rfl

@[simp] theorem input_receive : (d.receive r off l).input = d.input := by
  cases r with
  | own => rfl
  | rbuf c => rfl

@[simp] theorem counts_receive : (d.receive r off l).counts = d.counts := by
  cases r with
  | own => rfl
  | rbuf c =>
    funext c'
    by_cases h : c' = c
    · subst h
      simp [Device.receive, Device.setCells, Device.setChannel, Device.counts]
    · simp [Device.receive, Device.setCells, Device.setChannel, Device.counts,
        Function.update_of_ne h]

@[simp] theorem sockid_receive (c : Nat) :
    ((d.receive r off l).channel c).sockid = (d.channel c).sockid := by
  cases r with
  | own => rfl
  | rbuf c' =>
    by_cases h : c = c'
    · subst h
      simp [Device.receive, Device.setCells, Device.setChannel]
    · simp [Device.receive, Device.setCells, Device.setChannel, Function.update_of_ne h]

theorem view_receive (i : Nat) : (d.receive r off l).view r i
    = if off ≤ i ∧ i < off + l.length then l[i - off]? else d.view r i := by
  rw [Device.view, cells_receive, got_receive, overwrite, marked]
  by_cases h : off ≤ i ∧ i < off + l.length
  · have hi : i - off < l.length := by lia
    rw [if_pos h, if_pos h, if_pos (by simp [h]), List.getD_eq_getElem?_getD,
      List.getElem?_eq_getElem hi]
    rfl
  · rw [if_neg h, if_neg h, Device.view]
    simp [h]

theorem view_receive_first (hgot : d.got = fun _ => false) :
    (d.receive r 0 l).view r = fun i => l[i]? := by
  funext i
  rw [view_receive, Nat.zero_add, Nat.sub_zero]
  by_cases h : i < l.length
  · rw [if_pos ⟨Nat.zero_le i, h⟩]
  · rw [if_neg (by omega), Device.view, hgot, if_neg (by simp),
      List.getElem?_eq_none (by omega)]

theorem view_receive_next {l' : List UInt8} (h : d.view r = fun i => l[i]?)
    (hoff : off = l.length) : (d.receive r off l').view r = fun i => (l ++ l')[i]? := by
  funext i
  rw [view_receive, h, hoff]
  by_cases hi : i < l.length
  · rw [if_neg (by lia), List.getElem?_append_left hi]
  · rw [List.getElem?_append_right (by lia)]
    by_cases hi' : i < l.length + l'.length
    · rw [if_pos ⟨by lia, hi'⟩]
    · rw [if_neg (by lia), List.getElem?_eq_none (by lia)]
      exact List.getElem?_eq_none (by lia)

theorem view_ne_none {i : Nat} : d.view r i ≠ none ↔ d.got i = true := by
  rw [Device.view]
  by_cases hg : d.got i = true
  · simp [hg]
  · simp [hg]

theorem byteAt_view {i : Nat} (h : d.got i = true) : byteAt (d.view r) i = d.cells r i := by
  rw [byteAt, Device.view, if_pos h]
  rfl

theorem wordAt_view {i : Nat} (h : d.got i = true) (h' : d.got (i + 1) = true) :
    wordAt (d.view r) i = be16 (d.cells r) i := by
  rw [wordAt, byteAt_view h, byteAt_view h', be16]

end Receive

/-! ## Executing a packet -/

section Exec

variable {p : Proto} {r : Ref} {d : Device}

theorem storePacket_safe_iff (h0 : d.got 0 = true) (h2 : d.got 2 = true) (h3 : d.got 3 = true) :
    Safe (storePacket r d) ↔ StoreOk d.counts (d.view r) := by
  rw [StoreOk, byteAt_view h0, wordAt_view h2 h3, storePacket]
  dsimp only
  rw [safe_require_bind]
  refine and_congr_right fun _ => ?_
  rw [safe_return]
  have hcredit : (d.counts (d.cells r 0).toNat).1 = (d.channel (d.cells r 0).toNat).p2hcredit := rfl
  have hheld : (d.counts (d.cells r 0).toNat).2 = (d.channel (d.cells r 0).toNat).rcnt := rfl
  rw [hcredit, hheld]
  refine forall_congr' fun _ => ?_
  rw [safe_return, safe_require_bind, safe_require_bind]
  unfold bufferSize headerSize
  constructor
  · rintro h hfit
    obtain ⟨hsize, ⟨hown, -⟩, -⟩ := h (by lia)
    lia
  · rintro h hfit
    have := h (by lia)
    exact ⟨by lia, by lia, safe_pure _⟩

theorem execCommand_safe_iff : Safe (execCommand p r d) ↔ CommandOk p (d.view r) := by
  rw [execCommand, safe_require_bind, CommandOk, view_ne_none]
  refine and_congr_right fun h6 => ?_
  rw [byteAt_view h6, view_ne_none, view_ne_none, view_ne_none, view_ne_none]
  dsimp only
  by_cases h3 : d.cells r 6 = 3
  · rw [if_pos h3, safe_require_bind, safe_require_bind]
    simp only [h3, true_implies]
    constructor
    · rintro ⟨hgot, hsock, -⟩
      rw [byteAt_view hgot.1]
      exact ⟨⟨hgot, hsock⟩, fun h => by cases h⟩
    · rintro ⟨⟨hgot, hsock⟩, -⟩
      rw [byteAt_view hgot.1] at hsock
      exact ⟨hgot, hsock, safe_pure _⟩
  · rw [if_neg h3]
    by_cases h4 : d.cells r 6 = 4
    · rw [if_pos h4, safe_require_bind]
      exact ⟨fun h => ⟨fun hc => absurd hc h3, fun _ => h.1⟩,
        fun h => ⟨h.2 h4, safe_pure _⟩⟩
    · rw [if_neg h4]
      refine iff_of_true ?_ ⟨fun hc => absurd hc h3, fun hc => absurd hc h4⟩
      rw [safe_ite]
      exact ⟨fun _ => safe_pure _, fun _ => safe_pure _⟩

theorem execReverseCmd_safe_iff (hhead : ∀ i < headerSize, d.got i = true) :
    Safe (execReverseCmd p r d) ↔ ExecOk p d.counts (d.view r) := by
  rw [ExecOk, byteAt_view (hhead 0 (by decide)), byteAt_view (hhead 1 (by decide)),
    execReverseCmd]
  by_cases h : d.cells r 0 = 0 ∧ d.cells r 1 = 0
  · rw [if_neg (not_not_intro h), if_pos h]
    exact execCommand_safe_iff
  · rw [if_pos h, if_neg h]
    by_cases heq : d.cells r 0 = d.cells r 1
    · rw [if_pos heq, storePacket_safe_iff (hhead 0 (by decide)) (hhead 2 (by decide))
        (hhead 3 (by decide))]
      exact ⟨fun hs _ => hs, fun hs => hs heq⟩
    · rw [if_neg heq]
      exact iff_of_true (safe_ok _) fun hc => absurd hc heq

end Exec

/-! ## Packets on the wire -/

def lengthOf (head : List UInt8) : Nat := wordAt (fun i => head[i]?) 2

def wholePacket (head : List UInt8) (w : List (Option UInt8)) : Option (List UInt8) :=
  let body := (pullFlat w (lengthOf head - headerSize)).1
  if body.length = lengthOf head - headerSize then some (head ++ body) else none

def packet (w : List (Option UInt8)) : Option (List UInt8) :=
  let head := (pullFlat w headerSize).1
  if head.length = headerSize ∧ lengthOf head ≤ bufferSize then
    wholePacket head (pullFlat w headerSize).2
  else none

def shiftedPacket (head : List UInt8) (w : List (Option UInt8)) : Option (List UInt8) :=
  let next := pullFlat w 1
  let head' := head.drop 1 ++ next.1
  if head'.length = headerSize ∧ lengthOf head' ≠ 0 ∧ lengthOf head' ≤ bufferSize then
    wholePacket head' next.2
  else none

/-- The next packet in the wait for a reply: MLC lets a header start one byte late. -/
def replyPacket (p : Proto) (w : List (Option UInt8)) : Option (List UInt8) :=
  let head := (pullFlat w headerSize).1
  if lengthOf head ≠ 0 then packet w
  else if p = .mlc ∧ head.length = headerSize then shiftedPacket head (pullFlat w headerSize).2
  else none

/-! ## Reading -/

def Device.read (d : Device) (r : Ref) (off size : Nat) : Device :=
  { d.receive r off (pullFlat (flat d.input) size).1 with input := (pull d.input size).2 }

section Read

variable {d : Device} {r : Ref} {off size : Nat}

@[simp] theorem cells_input (es : List (Event UInt8)) (r : Ref) :
    Device.cells { d with input := es } r = d.cells r := by
  cases r with
  | own => rfl
  | rbuf c => rfl

theorem cells_own : d.cells .own = d.buf := rfl

theorem cells_rbuf (c : Nat) : d.cells (.rbuf c) = (d.channel c).rbuf := rfl

theorem readInto_eq (h : off + size ≤ bufferSize) :
    readInto d r off size
      = .ok ((pullFlat (flat d.input) size).1.length, d.read r off size) := by
  rw [readInto, require_pos h, pull_flatten]
  rfl

@[simp] theorem flat_read : flat (d.read r off size).input = (pullFlat (flat d.input) size).2 :=
  flat_pull d.input size

@[simp] theorem counts_read : (d.read r off size).counts = d.counts :=
  counts_receive (d := d) (r := r)

@[simp] theorem sockid_read (c : Nat) :
    ((d.read r off size).channel c).sockid = (d.channel c).sockid :=
  sockid_receive (d := d) (r := r) c

theorem view_read : (d.read r off size).view r
    = (d.receive r off (pullFlat (flat d.input) size).1).view r := by
  funext i
  rw [Device.view, Device.view, Device.read, cells_input]

theorem receive_nil : d.receive r off [] = d := by
  have hover : overwrite (d.cells r) off [] = d.cells r := by
    funext i
    exact if_neg fun h => by simp at h; omega
  have hgot : marked d.got off 0 = d.got := by
    funext i
    rw [marked, decide_eq_false (by omega), Bool.false_or]
  rw [Device.receive, hover, List.length_nil, hgot]
  cases r with
  | own => rfl
  | rbuf c => simp [Device.setCells, Device.setChannel, Device.cells]

theorem read_zero : d.read r off 0 = d := by
  rw [Device.read, pullFlat_zero, pull_zero, receive_nil]

theorem readField_eq {n : Nat} (h : n ≤ bufferSize) : readField d r headerSize n
    = .ok (decide ((pullFlat (flat d.input) (n - headerSize)).1.length = n - headerSize),
        d.read r headerSize (n - headerSize)) := by
  rw [readField]
  by_cases hn : headerSize < n
  · rw [if_pos hn, readInto_eq (by lia)]
    rfl
  · have hzero : n - headerSize = 0 := by lia
    rw [if_neg hn, hzero, read_zero, pullFlat_zero]
    rfl

end Read

/-! ## Waiting for a command or a reply -/

section Wait

variable {p : Proto} {d : Device}

theorem got_of_view {r : Ref} {l : List UInt8} (h : d.view r = fun i => l[i]?) {i : Nat}
    (hi : i < l.length) : d.got i = true := by
  rw [← view_ne_none (r := r), h]
  simpa using hi

theorem readField_safe_iff {r : Ref} {head : List UInt8} {γ : Type}
    {f : Bool × Device → Except PacketFault γ} {P : List UInt8 → Prop}
    (hv : d.view r = fun i => head[i]?) (hlen : head.length = headerSize)
    (hmax : lengthOf head ≤ bufferSize) (hshort : ∀ d', Safe (f (false, d')))
    (hf : ∀ d' pk, d'.view r = (fun i => pk[i]?) → d'.counts = d.counts →
      head.length ≤ pk.length → (Safe (f (true, d')) ↔ P pk)) :
    Safe (readField d r headerSize (lengthOf head) >>= f)
      ↔ ∀ pk, wholePacket head (flat d.input) = some pk → P pk := by
  rw [safe_bind (readField_eq hmax), wholePacket]
  by_cases hall : (pullFlat (flat d.input) (lengthOf head - headerSize)).1.length
      = lengthOf head - headerSize
  · rw [if_pos hall, decide_eq_true hall, hf _ _ ((view_read).trans
      (view_receive_next hv hlen.symm)) counts_read (by simp)]
    constructor
    · intro hP pk hpk
      exact Option.some.inj hpk ▸ hP
    · intro hP
      exact hP _ rfl
  · rw [if_neg hall, decide_eq_false hall]
    exact iff_of_true (hshort _) fun pk hpk => nomatch hpk

def Device.header (d : Device) (r : Ref) : Device :=
  { d with got := fun _ => false }.read r 0 headerSize

theorem header_eq (r : Ref) : readInto { d with got := fun _ => false } r 0 headerSize
    = .ok ((pullFlat (flat d.input) headerSize).1.length, d.header r) :=
  readInto_eq (by decide)

theorem view_header (r : Ref) :
    (d.header r).view r = fun i => (pullFlat (flat d.input) headerSize).1[i]? :=
  view_read.trans (view_receive_first rfl)

@[simp] theorem flat_header (r : Ref) :
    flat (d.header r).input = (pullFlat (flat d.input) headerSize).2 := flat_read

@[simp] theorem counts_header (r : Ref) : (d.header r).counts = d.counts := counts_read

@[simp] theorem sockid_header (r : Ref) (c : Nat) :
    ((d.header r).channel c).sockid = (d.channel c).sockid := sockid_read c

theorem cells_of_view {r : Ref} {l : List UInt8} (h : d.view r = fun i => l[i]?) {i : Nat}
    (hi : i < l.length) : d.cells r i = byteAt (fun i => l[i]?) i := by
  rw [← h, byteAt_view (got_of_view h hi)]

theorem length_of_view {r : Ref} {l : List UInt8} (h : d.view r = fun i => l[i]?)
    (hl : l.length = headerSize) : be16 (d.cells r) 2 = lengthOf l := by
  have h2 : 2 < l.length := hl ▸ by decide
  have h3 : 2 + 1 < l.length := hl ▸ by decide
  rw [lengthOf, wordAt, be16, cells_of_view h h2, cells_of_view h h3]

theorem exec_view_safe_iff {r : Ref} {pk : List UInt8} (hv : d.view r = fun i => pk[i]?)
    (hlen : headerSize ≤ pk.length) :
    Safe (execReverseCmd p r d) ↔ ExecOk p d.counts fun i => pk[i]? := by
  rw [execReverseCmd_safe_iff fun i hi => got_of_view hv (by omega), hv]

/-- The packets a wait for a command may meet. -/
def CmdOk (p : Proto) (d : Device) : Prop :=
  ∀ pk, packet (flat d.input) = some pk → ExecOk p d.counts fun i => pk[i]?

theorem reverseCmd_safe_iff : Safe (reverseCmd p d) ↔ CmdOk p d := by
  rw [reverseCmd, safe_bind (header_eq .own), CmdOk, packet]
  dsimp only
  rw [safe_return, not_not]
  by_cases hlen : (pullFlat (flat d.input) headerSize).1.length = headerSize
  · have hbuf := length_of_view (view_header (d := d) .own) hlen
    rw [cells_own] at hbuf
    rw [imp_iff_right hlen, safe_return, hbuf]
    by_cases hmax : lengthOf (pullFlat (flat d.input) headerSize).1 ≤ bufferSize
    · rw [if_pos ⟨hlen, hmax⟩, ← flat_header (d := d) .own, imp_iff_right (by omega)]
      refine (readField_safe_iff (view_header .own) hlen hmax (fun d' => safe_pure _) ?_)
      intro d' pk hv hcounts hpk
      rw [← counts_header (d := d) .own, ← hcounts]
      exact exec_view_safe_iff hv (by omega)
    · rw [if_neg fun h => hmax h.2]
      exact iff_of_true (fun h => absurd (Nat.lt_of_not_le hmax) h) fun pk hpk => nomatch hpk
  · refine iff_of_true (fun h => absurd h hlen) fun pk hpk => ?_
    exact absurd (Option.ite_none_right_eq_some.mp hpk).1.1 hlen

def ReplyPacketOk (p : Proto) (counts : Nat → UInt16 × Nat) (pk : List UInt8) : Prop :=
  headerSize < pk.length
    ∧ (byteAt (fun i => pk[i]?) 6 &&& 0x80 = 0 → ExecOk p counts fun i => pk[i]?)

/-- The packets a wait for a reply may meet. -/
def ReplyOk (p : Proto) (d : Device) : Prop :=
  ∀ pk, replyPacket p (flat d.input) = some pk → ReplyPacketOk p d.counts pk

theorem replyBody_safe_iff {head : List UInt8} (hv : d.view .own = fun i => head[i]?)
    (hlen : head.length = headerSize) (hmax : lengthOf head ≤ bufferSize) :
    Safe (replyBody p (lengthOf head) d)
      ↔ ∀ pk, wholePacket head (flat d.input) = some pk → ReplyPacketOk p d.counts pk := by
  refine readField_safe_iff hv hlen hmax (fun d' => safe_pure _) ?_
  intro d' pk hv' hcounts hpk
  show Safe (require (d'.got 6 = true) PacketFault.stale >>= _) ↔ _
  rw [safe_require_bind, ReplyPacketOk, ← hcounts, ← view_ne_none (r := .own), hv']
  have hsix : pk[6]? ≠ none ↔ headerSize < pk.length := by
    simp [headerSize]
  rw [hsix]
  refine and_congr_right fun hsix => ?_
  have hbuf : d'.buf 6 = byteAt (fun i => pk[i]?) 6 := cells_of_view hv' hsix
  rw [← hbuf, safe_return, not_not]
  refine forall_congr' fun _ => ?_
  rw [safe_bind_iff]
  · exact exec_view_safe_iff hv' (by omega)
  · rintro ⟨stat, d''⟩
    rw [safe_return]
    exact fun _ => safe_pure _

def Device.shifted (d : Device) : Device :=
  { d with
    buf := fun i => if i < headerSize - 1 then d.buf (i + 1) else d.buf i
    got := fun i => if i < headerSize - 1 then d.got (i + 1) else d.got i }

theorem view_shifted {head : List UInt8} (hv : d.view .own = fun i => head[i]?)
    (hlen : head.length = headerSize)
    (hnext : (pullFlat (flat d.input) 1).1.length = 1) :
    (d.shifted.read .own (headerSize - 1) 1).view .own
      = fun i => (head.drop 1 ++ (pullFlat (flat d.input) 1).1)[i]? := by
  rw [view_read]
  funext i
  rw [view_receive]
  have hnext' : (pullFlat (flat d.shifted.input) 1).1 = (pullFlat (flat d.input) 1).1 := rfl
  rw [hnext', hnext]
  unfold headerSize at hlen ⊢
  have hdrop : (head.drop 1).length = 5 := by simp [hlen]
  by_cases hi : i < 5
  · have hold : d.shifted.view .own i = d.view .own (i + 1) := by
      simp [Device.view, Device.shifted, Device.cells, headerSize, hi]
    rw [if_neg (by lia), List.getElem?_append_left (by lia), hold, hv, List.getElem?_drop,
      Nat.add_comm 1 i]
  · rw [List.getElem?_append_right (by lia), hdrop]
    by_cases hi5 : i = 5
    · rw [if_pos (by lia)]
    · have hold : d.shifted.view .own i = d.view .own i := by
        simp [Device.view, Device.shifted, Device.cells, headerSize, hi]
      rw [if_neg (by lia), hold, hv, List.getElem?_eq_none (by lia)]
      exact List.getElem?_eq_none (by lia)

theorem firmwareHack_eq {head : List UInt8} (hv : d.view .own = fun i => head[i]?)
    (hlen : head.length = headerSize) :
    let head' := head.drop 1 ++ (pullFlat (flat d.input) 1).1
    firmwareHack d
      = if lengthOf head' = 0 ∨ bufferSize < lengthOf head' then .ok (none, d.shifted)
        else .ok (if (pullFlat (flat d.input) 1).1.length ≠ 1 then none else some (lengthOf head'),
          d.shifted.read .own (headerSize - 1) 1) := by
  have hbuf : be16 d.shifted.buf 2 = lengthOf (head.drop 1 ++ (pullFlat (flat d.input) 1).1) := by
    have h3 : d.buf 3 = byteAt (fun i => head[i]?) 3 := cells_of_view hv (hlen ▸ by decide)
    have h4 : d.buf 4 = byteAt (fun i => head[i]?) 4 := cells_of_view hv (hlen ▸ by decide)
    have hdrop : (head.drop 1).length = 5 := by simp [hlen, headerSize]
    have hword : be16 d.shifted.buf 2 = (d.buf 3).toNat * 256 + (d.buf 4).toNat := rfl
    rw [hword, h3, h4, lengthOf, wordAt, byteAt, byteAt, byteAt, byteAt,
      List.getElem?_append_left (by omega), List.getElem?_append_left (by omega),
      List.getElem?_drop, List.getElem?_drop]
  have hrun : firmwareHack d = if be16 d.shifted.buf 2 = 0 ∨ bufferSize < be16 d.shifted.buf 2
      then .ok (none, d.shifted)
      else readInto d.shifted .own (headerSize - 1) 1 >>= fun x =>
        if x.1 ≠ 1 then .ok (none, x.2) else .ok (some (be16 d.shifted.buf 2), x.2) := rfl
  have hflat : pullFlat (flat d.shifted.input) 1 = pullFlat (flat d.input) 1 := rfl
  dsimp only
  rw [hrun, hbuf, readInto_eq (by decide), hflat]
  congr 1
  by_cases hnext : (pullFlat (flat d.input) 1).1.length = 1
  · rw [if_neg (not_not_intro hnext)]
    exact if_neg (not_not_intro hnext)
  · rw [if_pos hnext]
    exact if_pos hnext

theorem length_shifted {head : List UInt8} (hlen : head.length = headerSize) :
    (head.drop 1 ++ (pullFlat (flat d.input) 1).1).length = headerSize
      ↔ (pullFlat (flat d.input) 1).1.length = 1 := by
  rw [List.length_append, List.length_drop, hlen]
  unfold headerSize
  lia

theorem firmwareHack_safe_iff {head : List UInt8} {γ : Type}
    {f : Option Nat × Device → Except PacketFault γ} {P : List UInt8 → Prop}
    (hv : d.view .own = fun i => head[i]?) (hlen : head.length = headerSize)
    (hnone : ∀ d', Safe (f (none, d')))
    (hf : ∀ d' head', d'.view .own = (fun i => head'[i]?) → head'.length = headerSize →
      lengthOf head' ≤ bufferSize → d'.counts = d.counts → (Safe (f (some (lengthOf head'), d'))
        ↔ ∀ pk, wholePacket head' (flat d'.input) = some pk → P pk)) :
    Safe (firmwareHack d >>= f)
      ↔ ∀ pk, shiftedPacket head (flat d.input) = some pk → P pk := by
  rw [shiftedPacket, firmwareHack_eq hv hlen]
  by_cases hbad : lengthOf (head.drop 1 ++ (pullFlat (flat d.input) 1).1) = 0
      ∨ bufferSize < lengthOf (head.drop 1 ++ (pullFlat (flat d.input) 1).1)
  · rw [if_pos hbad, if_neg (by lia)]
    exact iff_of_true (hnone _) fun pk hpk => nomatch hpk
  · rw [if_neg hbad]
    by_cases hnext : (pullFlat (flat d.input) 1).1.length = 1
    · have hrest : (pullFlat (flat d.input) 1).2
          = flat (d.shifted.read .own (headerSize - 1) 1).input :=
        (flat_read (d := d.shifted)).symm
      rw [if_neg (not_not_intro hnext),
        if_pos ⟨(length_shifted hlen).mpr hnext, by lia, by lia⟩, hrest]
      exact hf _ _ (view_shifted hv hlen hnext) ((length_shifted hlen).mpr hnext) (by lia)
        counts_read
    · rw [if_pos hnext, if_neg fun h => hnext ((length_shifted hlen).mp h.1)]
      exact iff_of_true (hnone _) fun pk hpk => nomatch hpk

theorem length_of_replyPacket {w : List (Option UInt8)} {pk : List UInt8}
    (h : replyPacket p w = some pk) : (pullFlat w headerSize).1.length = headerSize := by
  rw [replyPacket] at h
  by_cases hzero : lengthOf (pullFlat w headerSize).1 = 0
  · rw [if_neg (not_not_intro hzero)] at h
    exact (Option.ite_none_right_eq_some.mp h).1.2
  · rw [if_pos hzero] at h
    exact (Option.ite_none_right_eq_some.mp h).1.1

theorem replyStep_safe_iff : Safe (replyStep p d) ↔ ReplyOk p d := by
  rw [replyStep, safe_bind (header_eq .own), ReplyOk, replyPacket]
  dsimp only
  rw [safe_return, not_not]
  by_cases hlen : (pullFlat (flat d.input) headerSize).1.length = headerSize
  · have hbuf := length_of_view (view_header (d := d) .own) hlen
    rw [cells_own] at hbuf
    have hv := view_header (d := d) .own
    rw [imp_iff_right hlen, safe_return, hbuf, packet, ← flat_header (d := d) .own,
      ← counts_header (d := d) .own]
    generalize (pullFlat (flat d.input) headerSize).1 = head at *
    by_cases hzero : lengthOf head = 0
    · rw [if_neg (not_not_intro hzero), hzero, imp_iff_right (by decide), if_pos rfl]
      cases p with
      | dot4 =>
        rw [if_neg (by simp)]
        exact iff_of_true (safe_pure _) fun pk hpk => nomatch hpk
      | mlc =>
        rw [if_pos ⟨rfl, hlen⟩]
        refine firmwareHack_safe_iff hv hlen (fun d' => safe_pure _) ?_
        intro d' head' hv' hlen' hmax hcounts
        rw [← hcounts]
        exact replyBody_safe_iff hv' hlen' hmax
    · rw [if_pos hzero, if_neg hzero]
      by_cases hmax : lengthOf head ≤ bufferSize
      · rw [if_pos ⟨hlen, hmax⟩, imp_iff_right (by omega)]
        exact replyBody_safe_iff hv hlen hmax
      · rw [if_neg fun h => hmax h.2]
        exact iff_of_true (fun h => absurd (Nat.lt_of_not_le hmax) h) fun pk hpk => nomatch hpk
  · exact iff_of_true (fun h => absurd h hlen) fun pk hpk =>
      absurd (length_of_replyPacket (p := p) hpk) hlen

end Wait

/-! ## Waiting for data -/

/-- A command among the data as the code lays it out: every piece but the first is put behind
the length of the piece before it. -/
def landed : Nat → List (List UInt8) → Nat → Option UInt8
  | _, [], _ => none
  | off, l :: ps, i => (landed l.length ps i).or (if off ≤ i then l[i - off]? else none)

/-- The packets a wait for data on channel `pc` may meet. -/
def DataOk (p : Proto) (pc : Nat) (d : Device) : Prop :=
  let head := (pullFlat (flat d.input) headerSize).1
  let v : Nat → Option UInt8 := fun i => head[i]?
  let pieces := (pull (pull d.input headerSize).2 (lengthOf head - headerSize)).1
  head.length = headerSize → lengthOf head ≤ headerSize + bufferSize →
    byteAt v 0 ≠ (d.channel pc).sockid → byteAt v 1 ≠ (d.channel pc).sockid →
    byteAt v 0 = byteAt v 1 →
      if byteAt v 0 = 0 then
        lengthOf head ≤ bufferSize ∧ (pieces.flatten.length = lengthOf head - headerSize →
          ExecOk p d.counts fun i => (landed headerSize pieces i).or (v i))
      else (byteAt v 0).toNat < channelMax

section Data

variable {p : Proto} {d : Device} {r : Ref}

theorem view_placeCommand (off : Nat) (ps : List (List UInt8)) :
    (placeCommand d r off ps).2.view r = fun i => (landed off ps i).or (d.view r i) := by
  induction ps generalizing d off with
  | nil => rfl
  | cons l ps ih =>
    rw [placeCommand, ih]
    funext i
    rw [landed, view_receive, Option.or_assoc]
    congr 1
    by_cases hoff : off ≤ i
    · rw [if_pos hoff]
      by_cases hi : i < off + l.length
      · rw [if_pos ⟨hoff, hi⟩, List.getElem?_eq_getElem (by lia)]
        rfl
      · rw [if_neg (by lia), List.getElem?_eq_none (by lia)]
        rfl
    · rw [if_neg hoff, if_neg (by lia)]
      rfl

theorem counts_placeCommand (off : Nat) (ps : List (List UInt8)) :
    (placeCommand d r off ps).2.counts = d.counts := by
  induction ps generalizing d off with
  | nil => rfl
  | cons l ps ih => rw [placeCommand, ih, counts_receive]

theorem got_placeCommand (off : Nat) (ps : List (List UInt8)) {i : Nat} (h : d.got i = true) :
    (placeCommand d r off ps).2.got i = true := by
  rw [← view_ne_none (r := r)] at h ⊢
  rw [view_placeCommand]
  show (landed off ps i).or (d.view r i) ≠ none
  cases landed off ps i with
  | none => exact h
  | some b => exact Option.some_ne_none b

theorem dataAside_safe_iff {n : Nat} :
    Safe (dataAside r n d) ↔ (d.cells r 0).toNat < channelMax := by
  rw [dataAside, safe_require_bind]
  refine and_iff_left ?_
  rw [safe_return]
  intro _
  rw [safe_return]
  intro hfit
  rw [safe_require_bind]
  refine ⟨by unfold headerSize at *; lia, ?_⟩
  rw [safe_return]
  exact fun _ => safe_pure _

theorem ownData_safe {pc n : Nat} (h : n ≤ headerSize + bufferSize) :
    Safe (ownData pc n d) := by
  rw [ownData, safe_ite]
  refine ⟨fun hlong => ?_, fun _ => safe_pure _⟩
  rw [safe_bind (readInto_eq (by lia))]
  exact safe_pure _

theorem commandAmongData_safe_iff {head : List UInt8} (hv : d.view r = fun i => head[i]?)
    (hlen : head.length = headerSize) :
    Safe (commandAmongData p r (lengthOf head) d) ↔ lengthOf head ≤ bufferSize ∧
      ((pull d.input (lengthOf head - headerSize)).1.flatten.length = lengthOf head - headerSize →
        ExecOk p d.counts fun i =>
          (landed headerSize (pull d.input (lengthOf head - headerSize)).1 i).or head[i]?) := by
  rw [commandAmongData, safe_require_bind]
  refine and_congr (by unfold headerSize bufferSize; lia) ?_
  rw [safe_return, not_not]
  refine forall_congr' fun _ => ?_
  have hv' : Device.view { d with input := (pull d.input (lengthOf head - headerSize)).2 } r
      = fun i => head[i]? := by
    rw [← hv]
    funext i
    rw [Device.view, cells_input, Device.view]
  rw [safe_bind_iff fun x => safe_pure _, execReverseCmd_safe_iff fun i hi =>
    got_placeCommand _ _ (got_of_view hv' (by lia)), view_placeCommand, counts_placeCommand, hv']
  exact Iff.rfl

theorem dataStep_safe_iff {pc : Nat} : Safe (dataStep p pc d) ↔ DataOk p pc d := by
  rw [dataStep, safe_bind (header_eq (.rbuf pc)), DataOk]
  dsimp only
  rw [safe_return, not_not]
  refine forall_congr' fun hlen => ?_
  have hv := view_header (d := d) (.rbuf pc)
  have hbuf := length_of_view hv hlen
  have h0 := cells_of_view (i := 0) hv (by rw [hlen]; decide)
  have h1 := cells_of_view (i := 1) hv (by rw [hlen]; decide)
  have hcells := cells_rbuf (d := d.header (.rbuf pc)) pc
  rw [safe_return, Nat.not_lt, ← hcells, hbuf, h0, h1, sockid_header]
  refine forall_congr' fun hmax => ?_
  rw [safe_ite]
  have hinput : (d.header (.rbuf pc)).input = (pull d.input headerSize).2 := rfl
  rw [← counts_header (d := d) (.rbuf pc), ← hinput]
  have hcommand := commandAmongData_safe_iff (p := p) hv hlen
  have haside := dataAside_safe_iff (d := d.header (.rbuf pc)) (r := .rbuf pc)
    (n := lengthOf (pullFlat (flat d.input) headerSize).1)
  rw [h0] at haside
  generalize byteAt (fun i => (pullFlat (flat d.input) headerSize).1[i]?) 0 = b0 at *
  generalize byteAt (fun i => (pullFlat (flat d.input) headerSize).1[i]?) 1 = b1 at *
  constructor
  · rintro ⟨hother, -⟩ hs0 hs1 heq
    have hsafe := hother ⟨hs0, hs1⟩
    subst heq
    by_cases hzero : b0 = 0
    · rw [if_pos ⟨hzero, hzero⟩] at hsafe
      rw [if_pos hzero]
      exact hcommand.mp hsafe
    · rw [if_neg fun h => hzero h.1, if_pos rfl] at hsafe
      rw [if_neg hzero]
      exact haside.mp hsafe
  · intro h
    refine ⟨fun hs => ?_, fun _ => ownData_safe hmax⟩
    by_cases heq : b0 = b1
    · have hok := h hs.1 hs.2 heq
      subst heq
      by_cases hzero : b0 = 0
      · rw [if_pos hzero] at hok
        rw [if_pos ⟨hzero, hzero⟩]
        exact hcommand.mpr hok
      · rw [if_neg hzero] at hok
        rw [if_neg fun h => hzero h.1, if_pos rfl]
        exact haside.mpr hok
    · rw [if_neg fun h => heq (h.1.trans h.2.symm), if_neg heq]
      exact safe_pure _

end Data

/-! ## The loops -/

section Loops

variable {p : Proto} {r : Ref} {d : Device}

def Device.left (d : Device) : Nat := (flat d.input).length

theorem vfWrite_input (l : List UInt8) : (vfWrite d l).2.input = d.input := by
  rw [vfWrite]
  split
  · rfl
  · rfl
  · rfl

theorem setCells_input (b : Nat → UInt8) : (d.setCells b r).input = d.input := by
  cases r with
  | own => rfl
  | rbuf c => rfl

theorem forwardReply_input (l : List UInt8) : (forwardReply d r l).input = d.input := by
  rw [forwardReply, vfWrite_input, setCells_input]

theorem storePacket_input : Gives (fun x => x.2.input = d.input) (storePacket r d) := by
  refine Gives.require fun _ => Gives.ite (fun _ => Gives.pure rfl) fun _ => ?_
  refine Gives.ite (fun _ => Gives.pure rfl) fun _ => ?_
  exact Gives.require fun _ => Gives.require fun _ => Gives.pure rfl

theorem execCommand_input : Gives (fun x => x.2.input = d.input) (execCommand p r d) := by
  refine Gives.require fun _ => Gives.ite (fun _ => ?_) fun _ => Gives.ite (fun _ => ?_) fun _ => ?_
  · exact Gives.require fun _ => Gives.require fun _ => Gives.pure (forwardReply_input _)
  · exact Gives.require fun _ => Gives.pure (forwardReply_input _)
  · exact Gives.ite (fun _ => Gives.pure rfl) fun _ => Gives.pure (forwardReply_input _)

theorem execReverseCmd_input :
    Gives (fun x => x.2.input = d.input) (execReverseCmd p r d) := by
  refine Gives.ite (fun _ => Gives.ite (fun _ => storePacket_input) fun _ => ?_)
    fun _ => execCommand_input
  exact Gives.pure rfl

theorem readInto_left {off size : Nat} :
    Gives (fun x => x.2.left ≤ d.left) (readInto d r off size) := by
  refine Gives.require fun h => Gives.pure ?_
  rw [Device.left, flat_pull]
  exact pullFlat_rest_le _ _

theorem readField_left {off n : Nat} :
    Gives (fun x => x.2.left ≤ d.left) (readField d r off n) := by
  refine Gives.ite (fun _ => ?_) fun _ => Gives.pure (Nat.le_refl _)
  exact Gives.bind readInto_left fun x hx => Gives.pure hx

theorem header_left (h : (pullFlat (flat d.input) headerSize).1.length = headerSize) :
    (d.header r).left < d.left := by
  rw [Device.left, flat_header]
  refine pullFlat_rest_lt (by decide) fun hnil => ?_
  rw [hnil] at h
  cases h

theorem replyBody_left {n : Nat} :
    Gives (fun x => ∀ d', x = .inl d' → d'.left ≤ d.left) (replyBody p n d) := by
  refine Gives.bind readField_left fun x hx => Gives.ite (fun _ => Gives.pure nofun) fun _ => ?_
  refine Gives.require fun _ => Gives.ite (fun _ => Gives.pure nofun) fun _ => ?_
  refine Gives.bind execReverseCmd_input fun y hy => Gives.ite (fun _ => Gives.pure nofun) fun _ => ?_
  refine Gives.pure fun d' hd' => ?_
  cases hd'
  rw [Device.left, hy]
  exact hx

theorem firmwareHack_left : Gives (fun x => x.2.left ≤ d.left) (firmwareHack d) := by
  refine Gives.ite (fun _ => Gives.pure (Nat.le_refl _)) fun _ => ?_
  refine Gives.bind readInto_left fun x hx => Gives.ite (fun _ => Gives.pure hx) fun _ => ?_
  exact Gives.pure hx

theorem replyStep_left {d' : Device} (h : replyStep p d = .ok (.inl d')) : d'.left < d.left := by
  have hgives : Gives (fun x => ∀ d', x = .inl d' → d'.left < d.left) (replyStep p d) := by
    rw [replyStep, header_eq .own]
    refine Gives.ite (fun _ => Gives.pure nofun) fun hlen => ?_
    have hless := header_left (r := .own) (not_not.mp hlen)
    refine Gives.ite (fun _ => Gives.pure nofun) fun _ => Gives.ite (fun _ => ?_) fun _ => ?_
    · cases p with
      | dot4 => exact Gives.pure nofun
      | mlc =>
        refine Gives.bind firmwareHack_left fun x hx => ?_
        obtain ⟨len?, d1⟩ := x
        cases len? with
        | none => exact Gives.pure nofun
        | some n =>
          intro y hy d' hd'
          exact Nat.lt_of_le_of_lt (replyBody_left y hy d' hd') (Nat.lt_of_le_of_lt hx hless)
    · intro y hy d' hd'
      exact Nat.lt_of_le_of_lt (replyBody_left y hy d' hd') hless
  exact hgives _ h d' rfl

theorem placeCommand_input (off : Nat) (ps : List (List UInt8)) :
    (placeCommand d r off ps).2.input = d.input := by
  induction ps generalizing d off with
  | nil => rfl
  | cons l ps ih => rw [placeCommand, ih, input_receive]

theorem pull_left (n : Nat) : (flat (pull d.input n).2).length ≤ d.left := by
  rw [flat_pull]
  exact pullFlat_rest_le _ _

theorem commandAmongData_left {n : Nat} :
    Gives (fun x => ∀ d', x = .inl d' → d'.left ≤ d.left) (commandAmongData p r n d) := by
  refine Gives.require fun _ => Gives.ite (fun _ => Gives.pure nofun) fun _ => ?_
  refine Gives.bind execReverseCmd_input fun x hx => Gives.pure fun d' hd' => ?_
  cases hd'
  rw [Device.left, hx, placeCommand_input]
  exact pull_left _

theorem dataAside_left {n : Nat} :
    Gives (fun x => ∀ d', x = .inl d' → d'.left ≤ d.left) (dataAside r n d) := by
  refine Gives.require fun _ => Gives.ite (fun _ => Gives.pure nofun) fun _ => ?_
  refine Gives.ite (fun _ => Gives.pure nofun) fun _ => Gives.require fun _ => ?_
  refine Gives.ite (fun _ => Gives.pure nofun) fun _ => Gives.pure fun d' hd' => ?_
  cases hd'
  exact pull_left _

theorem ownData_left {pc n : Nat} : Gives (fun x => ∀ d', x ≠ .inl d') (ownData pc n d) := by
  refine Gives.ite (fun _ => ?_) fun _ => Gives.pure nofun
  exact Gives.bind (R := fun _ => True) (fun _ _ => trivial) fun _ _ => Gives.pure nofun

theorem dataStep_left {pc : Nat} {d' : Device} (h : dataStep p pc d = .ok (.inl d')) :
    d'.left < d.left := by
  have hgives : Gives (fun x => ∀ d', x = .inl d' → d'.left < d.left) (dataStep p pc d) := by
    rw [dataStep, header_eq (.rbuf pc)]
    refine Gives.ite (fun _ => Gives.pure nofun) fun hlen => ?_
    have hless := header_left (r := .rbuf pc) (not_not.mp hlen)
    refine Gives.ite (fun _ => Gives.pure nofun) fun _ => Gives.ite (fun _ => ?_) fun _ => ?_
    · refine Gives.ite (fun _ => ?_) fun _ => Gives.ite (fun _ => ?_) fun _ => Gives.pure nofun
      · intro x hx d' hd'
        exact Nat.lt_of_le_of_lt (commandAmongData_left x hx d' hd') hless
      · intro x hx d' hd'
        exact Nat.lt_of_le_of_lt (dataAside_left x hx d' hd') hless
    · intro x hx d' hd'
      exact absurd hd' (ownData_left x hx d')
  exact hgives _ h d' rfl

end Loops

/-- The four functions, on any stream of the peripheral: they stay within the buffers and the
channels, and decide on bytes of the packet, exactly when every packet they meet allows it. -/
theorem packets_safe_iff (p : Proto) (pc : Nat) (d : Device) :
    (∀ r, (∀ i < headerSize, d.got i = true) →
        (Safe (execReverseCmd p r d) ↔ ExecOk p d.counts (d.view r)))
      ∧ (Safe (reverseCmd p d) ↔ CmdOk p d)
      ∧ (Safe (reverseReply p d) ↔ Along (replyStep p) (ReplyOk p) (rounds d) d)
      ∧ (Safe (reverseData p pc d) ↔ Along (dataStep p pc) (DataOk p pc) (rounds d) d) := by
  refine ⟨fun r => execReverseCmd_safe_iff, reverseCmd_safe_iff, ?_, ?_⟩
  · exact iterate_ok_iff Device.left (fun s s' => replyStep_left) (fun s => replyStep_safe_iff) _ d
      (Nat.lt_succ_self _)
  · exact iterate_ok_iff Device.left (fun s s' => dataStep_left) (fun s => dataStep_safe_iff) _ d
      (Nat.lt_succ_self _)

def freshDevice (credit : UInt16) (es : List (Event UInt8)) : Device where
  channel c := ⟨c.toUInt8, 0, credit, 0, 0, fun _ => 0, 0, 0⟩
  buf := fun _ => 0
  got := fun _ => false
  input := es
  writes := []
  output := []

/-- A credit command of eleven bytes for channel 2. -/
theorem credit_command_safe :
    Safe (mlcExecReverseCmd .own { freshDevice 0 [] with
      got := fun i => decide (i < 11)
      buf := fun i => if i = 6 then 3 else if i = 7 then 2 else 0 }) := by
  refine ((packets_safe_iff .mlc 2 _).1 .own (by decide)).mpr ?_
  simp [ExecOk, CommandOk, byteAt, Device.view, Device.cells, channelMax]

set_option maxRecDepth 20000 in
/-- A socket past the channels, a data packet shorter than its header, a header that is taken
for a whole reply, and a command among the data that does not fit behind its header. -/
theorem packets_unsafe :
    ¬ Safe (mlcReverseCmd (freshDevice 0 [.piece [0, 0, 0, 11, 0, 0, 3, 200, 200, 0, 1]]))
      ∧ ¬ Safe (mlcReverseCmd (freshDevice 1 [.piece [5, 5, 0, 3, 0, 0]]))
      ∧ ¬ Safe (mlcReverseReply (freshDevice 0 [.piece [0, 0, 0, 6, 0, 0]]))
      ∧ ¬ Safe (mlcReverseData 2 (freshDevice 0 [.piece [0, 0, 64, 1, 0, 0]])) := by
  have hsocket : mlcReverseCmd (freshDevice 0 [.piece [0, 0, 0, 11, 0, 0, 3, 200, 200, 0, 1]])
    = .error .index := rfl
  have hsize : mlcReverseCmd (freshDevice 1 [.piece [5, 5, 0, 3, 0, 0]]) = .error .size := rfl
  have hreply : mlcReverseReply (freshDevice 0 [.piece [0, 0, 0, 6, 0, 0]])
    = .error .stale := rfl
  have hdata : mlcReverseData 2 (freshDevice 0 [.piece [0, 0, 64, 1, 0, 0]])
    = .error .bounds := rfl
  rw [hsocket, hsize, hreply, hdata]
  exact ⟨not_safe_error _, not_safe_error _, not_safe_error _, not_safe_error _⟩

end Hplip.Hpmud
