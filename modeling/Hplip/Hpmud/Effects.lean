import Mathlib
import Hplip.Hpmud.Acts
import Hplip.Hpmud.Chunking

/-!
# What a packet changes

The effect of the functions that take packets off the wire, said once: `executed` is what a
whole packet does to the channels, whichever function meets it. A wait that uses the buffer of
a channel changes that buffer besides.
-/

namespace Hplip.Hpmud

open Pieces Checked

/-! ## Effects -/

def pkByte (pk : List UInt8) (i : Nat) : UInt8 := byteAt (fun i => pk[i]?) i

def pkWord (pk : List UInt8) (i : Nat) : Nat := wordAt (fun i => pk[i]?) i

def IsCommand (pk : List UInt8) : Prop := pkByte pk 0 = 0 ∧ pkByte pk 1 = 0

instance (pk : List UInt8) : Decidable (IsCommand pk) := inferInstanceAs (Decidable (_ ∧ _))

/-- A data packet is stored where its channel has credit left and room. -/
def Fits (pk : List UInt8) (ch : Channel) : Prop :=
  ch.p2hcredit ≠ 0 ∧ pkWord pk 2 + ch.rcnt ≤ bufferSize + headerSize

instance (pk : List UInt8) (ch : Channel) : Decidable (Fits pk ch) :=
  inferInstanceAs (Decidable (_ ∧ _))

def Channel.stored (pk : List UInt8) (ch : Channel) : Channel :=
  { ch with
    rbuf := overwrite ch.rbuf ch.rcnt (pk.drop headerSize)
    rcnt := ch.rcnt + (pk.length - headerSize)
    h2pcredit := ch.h2pcredit + (pkByte pk 4).toUInt16
    p2hcredit := ch.p2hcredit - 1 }

def executed (pk : List UInt8) (channel : Nat → Channel) : Nat → Channel :=
  let c := (pkByte pk 0).toNat
  if IsCommand pk then
    if pkByte pk 6 = 3 then
      let c := (pkByte pk 7).toNat
      Function.update channel c { channel c with
        h2pcredit := (channel c).h2pcredit + (pkWord pk 9).toUInt16 }
    else channel
  else if pkByte pk 0 = pkByte pk 1 ∧ Fits pk (channel c) then
    Function.update channel c ((channel c).stored pk)
  else channel

def Channel.bare (ch : Channel) : Channel := { ch with rbuf := fun _ => 0 }

/-- Channels that are the same, but for the bytes in the buffer in use. -/
def Alike (r : Ref) (channel channel' : Nat → Channel) : Prop :=
  ∀ c, (channel' c).bare = (channel c).bare ∧ (r ≠ .rbuf c → channel' c = channel c)

theorem Alike.refl (r : Ref) (channel : Nat → Channel) : Alike r channel channel :=
  fun _ => ⟨rfl, fun _ => rfl⟩

theorem Alike.trans {r : Ref} {ch₁ ch₂ ch₃ : Nat → Channel} (h : Alike r ch₁ ch₂)
    (h' : Alike r ch₂ ch₃) : Alike r ch₁ ch₃ :=
  fun c => ⟨(h' c).1.trans (h c).1, fun hr => ((h' c).2 hr).trans ((h c).2 hr)⟩

theorem Alike.own {channel channel' : Nat → Channel} (h : Alike .own channel channel') :
    channel' = channel := funext fun c => (h c).2 nofun

theorem Alike.update {r : Ref} {channel channel' : Nat → Channel} (h : Alike r channel channel')
    {f : Channel → Channel} (hf : ∀ ch ch', ch'.bare = ch.bare → (f ch').bare = (f ch).bare)
    (c : Nat) :
    Alike r (Function.update channel c (f (channel c)))
      (Function.update channel' c (f (channel' c))) := by
  intro c'
  by_cases heq : c' = c
  · subst heq
    rw [Function.update_self, Function.update_self]
    exact ⟨hf _ _ (h c').1, fun hr => by rw [(h c').2 hr]⟩
  · rw [Function.update_of_ne heq, Function.update_of_ne heq]
    exact h c'

section Alike

variable {r : Ref} {d : Device}

theorem alike_setCells (b : Nat → UInt8) : Alike r d.channel (d.setCells b r).channel := by
  cases r with
  | own => exact .refl _ _
  | rbuf c =>
    intro c'
    by_cases h : c' = c
    · subst h
      exact ⟨by simp [Device.setCells, Device.setChannel, Channel.bare], fun hr => absurd rfl hr⟩
    · have hsame : (d.setCells b (.rbuf c)).channel c' = d.channel c' := Function.update_of_ne h _ _
      exact ⟨by rw [hsame], fun _ => hsame⟩

theorem alike_read (off size : Nat) : Alike r d.channel (d.read r off size).channel :=
  alike_setCells _

theorem vfWrite_channel (l : List UInt8) : (vfWrite d l).2.channel = d.channel := by
  rw [vfWrite]
  split
  · rfl
  · rfl
  · rfl

theorem alike_forwardReply (l : List UInt8) :
    Alike r d.channel (forwardReply d r l).channel := by
  rw [forwardReply, vfWrite_channel]
  exact alike_setCells _

end Alike

/-! ## Executing -/

def Whole (pk : List UInt8) : Prop := pk.length = max headerSize (pkWord pk 2)

theorem whole_of_wholePacket {head pk : List UInt8} {w : List (Option UInt8)}
    (hlen : head.length = headerSize) (h : wholePacket head w = some pk) :
    Whole pk ∧ pkWord pk 2 = lengthOf head ∧ ∀ i < headerSize, pkByte pk i = pkByte head i := by
  obtain ⟨hbody, heq⟩ := Option.ite_none_right_eq_some.mp h
  have hpk := Option.some.inj heq
  have hget : ∀ i < headerSize, pkByte pk i = pkByte head i := by
    intro i hi
    rw [← hpk, pkByte, pkByte, byteAt, byteAt, List.getElem?_append_left (by lia)]
  have hword : pkWord pk 2 = lengthOf head := by
    have h2 := hget 2 (by decide)
    have h3 := hget 3 (by decide)
    rw [pkByte, pkByte] at h2 h3
    rw [pkWord, lengthOf, wordAt, wordAt, h2, h3]
  refine ⟨?_, hword, hget⟩
  rw [Whole, hword, ← hpk, List.length_append, hbody, hlen]
  lia

theorem bare_eq {ch ch' : Channel} (h : ch'.bare = ch.bare) : ch' = { ch with rbuf := ch'.rbuf } := by
  obtain ⟨s, h2p, p2h, hs, ps, b, i, n⟩ := ch
  obtain ⟨s', h2p', p2h', hs', ps', b', i', n'⟩ := ch'
  simp only [Channel.bare, Channel.mk.injEq] at h
  obtain ⟨rfl, rfl, rfl, rfl, rfl, -, rfl, rfl⟩ := h
  rfl

theorem bare_stored (pk : List UInt8) {ch ch' : Channel} (h : ch'.bare = ch.bare) :
    (ch'.stored pk).bare = (ch.stored pk).bare := by
  rw [bare_eq h]
  rfl

theorem Alike.executed {r : Ref} {channel channel' : Nat → Channel} (h : Alike r channel channel')
    (pk : List UInt8) : Alike r (executed pk channel) (Hpmud.executed pk channel') := by
  rw [Hpmud.executed, Hpmud.executed]
  by_cases hcmd : IsCommand pk
  · rw [if_pos hcmd, if_pos hcmd]
    by_cases h3 : pkByte pk 6 = 3
    · rw [if_pos h3, if_pos h3]
      refine h.update (f := fun ch => { ch with h2pcredit := ch.h2pcredit + (pkWord pk 9).toUInt16 })
        (fun ch ch' hbare => ?_) _
      rw [bare_eq hbare]
      rfl
    · rw [if_neg h3, if_neg h3]
      exact h
  · rw [if_neg hcmd, if_neg hcmd]
    have hbare := bare_eq (h (pkByte pk 0).toNat).1
    have hfits : Fits pk (channel' (pkByte pk 0).toNat) ↔ Fits pk (channel (pkByte pk 0).toNat) := by
      rw [hbare]
      exact Iff.rfl
    by_cases hstore : pkByte pk 0 = pkByte pk 1 ∧ Fits pk (channel (pkByte pk 0).toNat)
    · rw [if_pos hstore, if_pos ⟨hstore.1, hfits.mpr hstore.2⟩]
      exact h.update (fun ch ch' hb => bare_stored pk hb) _
    · rw [if_neg hstore, if_neg fun hs => hstore ⟨hs.1, hfits.mp hs.2⟩]
      exact h

section Exec

variable {p : Proto} {r : Ref} {d : Device} {pk : List UInt8}

theorem pkByte_of_view (hv : d.view r = fun i => pk[i]?) {i : Nat} (hi : i < pk.length) :
    d.cells r i = pkByte pk i := cells_of_view hv hi

theorem pkWord_of_view (hv : d.view r = fun i => pk[i]?) {i : Nat} (hi : i + 1 < pk.length) :
    be16 (d.cells r) i = pkWord pk i := by
  rw [be16, pkWord, wordAt, pkByte_of_view hv (by omega), pkByte_of_view hv hi]
  rfl

theorem payload_of_view (hv : d.view r = fun i => pk[i]?) (hpk : Whole pk) :
    (List.range (pkWord pk 2 - headerSize)).map (fun i => d.cells r (headerSize + i))
      = pk.drop headerSize := by
  rw [Whole] at hpk
  refine List.ext_getElem (by simp; lia) fun i h1 h2 => ?_
  rw [List.length_map, List.length_range] at h1
  rw [List.getElem_map, List.getElem_range, List.getElem_drop,
    pkByte_of_view hv (by lia), pkByte, byteAt, List.getElem?_eq_getElem (by lia)]
  rfl

theorem storePacket_effect (hv : d.view r = fun i => pk[i]?) (hpk : Whole pk)
    (hdata : ¬ IsCommand pk) (heq : pkByte pk 0 = pkByte pk 1) :
    Gives (fun x => x.1 = 0 ∧ x.2.channel = executed pk d.channel) (storePacket r d) := by
  have hlen : headerSize ≤ pk.length := hpk ▸ Nat.le_max_left _ _
  have h0 := pkByte_of_view hv (i := 0) (by unfold headerSize at hlen; lia)
  have h4 := pkByte_of_view hv (i := 4) (by unfold headerSize at hlen; lia)
  have h2 := pkWord_of_view hv (i := 2) (by unfold headerSize at hlen; lia)
  rw [executed, if_neg hdata, storePacket, h0, h2, h4]
  dsimp only
  refine Gives.require fun _ => Gives.ite (fun hcredit => Gives.pure ⟨rfl, ?_⟩) fun hcredit =>
    Gives.ite (fun hfull => Gives.pure ⟨rfl, ?_⟩) fun hfull => Gives.require fun hsize =>
      Gives.require fun _ => Gives.pure ⟨rfl, ?_⟩
  · exact (if_neg fun h => h.2.1 hcredit).symm
  · rw [if_neg fun h => by have := h.2.2; lia]
  · rw [if_pos ⟨heq, hcredit, by lia⟩]
    have hn : ((pkWord pk 2 : Int) - headerSize).toNat = pkWord pk 2 - headerSize := by lia
    have hpklen : pk.length - headerSize = pkWord pk 2 - headerSize := by
      rw [Whole] at hpk
      lia
    rw [hn, payload_of_view hv hpk, Channel.stored, hpklen]
    rfl

theorem lt_of_got (hv : d.view r = fun i => pk[i]?) {i : Nat} (h : d.got i = true) :
    i < pk.length := by
  rw [← view_ne_none (r := r), hv] at h
  simpa using h

theorem execCommand_effect (hv : d.view r = fun i => pk[i]?)
    (hcmd : IsCommand pk) :
    Gives (fun x => Alike r (executed pk d.channel) x.2.channel
        ∧ (x.1 ≠ 0 → pkByte pk 6 = 0x7f)) (execCommand p r d) := by
  refine Gives.require fun hgot => ?_
  have h6 := pkByte_of_view hv (lt_of_got hv hgot)
  dsimp only
  rw [h6, executed, if_pos hcmd]
  refine Gives.ite (fun h3 => ?_) fun h3 => ?_
  · refine Gives.require fun hgot' => Gives.require fun _ => Gives.pure ⟨?_, nofun⟩
    have hlen := lt_of_got hv hgot'.2.2
    rw [if_pos h3, pkByte_of_view hv (by omega), pkWord_of_view hv hlen]
    exact alike_forwardReply _
  · rw [if_neg h3]
    refine Gives.ite (fun _ => ?_) fun _ => Gives.ite (fun herr => ?_) fun _ => ?_
    · exact Gives.require fun _ => Gives.pure ⟨alike_forwardReply _, nofun⟩
    · exact Gives.pure ⟨.refl _ _, fun _ => herr⟩
    · exact Gives.pure ⟨alike_forwardReply _, nofun⟩

theorem execReverseCmd_effect (hv : d.view r = fun i => pk[i]?) (hpk : Whole pk) :
    Gives (fun x => Alike r (executed pk d.channel) x.2.channel
        ∧ (x.1 ≠ 0 → IsCommand pk ∧ pkByte pk 6 = 0x7f))
      (execReverseCmd p r d) := by
  have hlen : headerSize ≤ pk.length := hpk ▸ Nat.le_max_left _ _
  have h0 := pkByte_of_view hv (i := 0) (by unfold headerSize at hlen; omega)
  have h1 := pkByte_of_view hv (i := 1) (by unfold headerSize at hlen; omega)
  rw [execReverseCmd, h0, h1]
  change Gives _ (if ¬ IsCommand pk then _ else _)
  refine Gives.ite (fun hdata => Gives.ite (fun heq => ?_) fun hne => ?_) fun hcmd => ?_
  · refine (storePacket_effect hv hpk hdata heq).mono fun x hx => ⟨?_, fun h => absurd hx.1 h⟩
    rw [hx.2]
    exact .refl _ _
  · refine Gives.ok ⟨?_, fun h => absurd rfl h⟩
    rw [executed, if_neg hdata, if_neg fun h => hne h.1]
    exact .refl _ _
  · have hcmd := not_not.mp hcmd
    exact (execCommand_effect hv hcmd).mono fun x hx => ⟨hx.1, fun h => ⟨hcmd, hx.2 h⟩⟩

end Exec

/-! ## Waiting for a command or a reply -/

/-- What a wait does to the channels with the packet it meets, if there is one. -/
def taken (pk? : Option (List UInt8)) (channel : Nat → Channel) : Nat → Channel :=
  match pk? with
  | some pk => executed pk channel
  | none => channel

section Wait

variable {p : Proto} {d : Device}

theorem readField_gives {r : Ref} {head : List UInt8} {γ : Type}
    {f : Bool × Device → Except PacketFault γ} {Q : γ → Prop} (hv : d.view r = fun i => head[i]?)
    (hlen : head.length = headerSize) (hmax : lengthOf head ≤ bufferSize)
    (hshort : wholePacket head (flat d.input) = none →
      Gives Q (f (false, d.read r headerSize (lengthOf head - headerSize))))
    (hf : ∀ pk, wholePacket head (flat d.input) = some pk →
      (d.read r headerSize (lengthOf head - headerSize)).view r = (fun i => pk[i]?) →
        Gives Q (f (true, d.read r headerSize (lengthOf head - headerSize)))) :
    Gives Q (readField d r headerSize (lengthOf head) >>= f) := by
  rw [readField_eq hmax]
  by_cases hall : (pullFlat (flat d.input) (lengthOf head - headerSize)).1.length
      = lengthOf head - headerSize
  · rw [decide_eq_true hall]
    exact hf _ (if_pos hall) (view_read.trans (view_receive_next hv hlen.symm))
  · rw [decide_eq_false hall]
    exact hshort (if_neg hall)

theorem channel_header_own : (d.header .own).channel = d.channel := rfl

/-- **A wait for a command** executes the packet it meets. -/
theorem reverseCmd_effect :
    Gives (fun x => x.2.channel = taken (packet (flat d.input)) d.channel) (reverseCmd p d) := by
  rw [reverseCmd, header_eq, packet]
  refine Gives.ite (fun hlen => Gives.pure ?_) fun hlen => ?_
  · rw [if_neg fun h => hlen h.1]
    rfl
  · have hlen := not_not.mp hlen
    have hbuf := length_of_view (view_header (d := d) .own) hlen
    rw [cells_own] at hbuf
    rw [hbuf]
    refine Gives.ite (fun hmax => Gives.pure ?_) fun hmax => ?_
    · rw [if_neg fun h => by omega]
      rfl
    · rw [if_pos ⟨hlen, by omega⟩, ← flat_header (d := d) .own]
      refine readField_gives (view_header .own) hlen (by omega) (fun hnone => ?_) fun pk hpk hv => ?_
      · rw [hnone]
        exact Gives.pure rfl
      · rw [hpk]
        exact (execReverseCmd_effect hv (whole_of_wholePacket hlen hpk).1).mono
          fun x hx => hx.1.own

/-- What a turn of the wait for a reply does with the packet it meets: the next turn begins when
it was executed; the wait ends with a reply in the buffer, with an error packet or without a
packet. -/
def Replied (pk? : Option (List UInt8)) (channel : Nat → Channel) : Device ⊕ (Nat × Device) → Prop
  | .inl d' => ∃ pk, pk? = some pk ∧ pkByte pk 6 &&& 0x80 = 0 ∧ d'.channel = executed pk channel
  | .inr (stat, d') => d'.channel = channel
      ∧ (stat ≠ 0 → ∀ pk, pk? = some pk → IsCommand pk ∧ pkByte pk 6 = 0x7f)
      ∧ (stat = 0 → ∃ pk, pk? = some pk ∧ pkByte pk 6 &&& 0x80 ≠ 0
          ∧ d'.view .own = fun i => pk[i]?)

theorem replied_none {channel : Nat → Channel} {stat : Nat} {d' : Device} (hstat : stat ≠ 0)
    (h : d'.channel = channel) : Replied none channel (.inr (stat, d')) :=
  ⟨h, fun _ _ hpk => (nomatch hpk), fun h0 => absurd h0 hstat⟩

theorem replyBody_effect {head : List UInt8} (hv : d.view .own = fun i => head[i]?)
    (hlen : head.length = headerSize) (hmax : lengthOf head ≤ bufferSize) :
    Gives (Replied (wholePacket head (flat d.input)) d.channel)
      (replyBody p (lengthOf head) d) := by
  refine readField_gives hv hlen hmax (fun hnone => ?_) fun pk hpk hv' => ?_
  · rw [hnone]
    exact Gives.pure (replied_none (by decide) rfl)
  · rw [hpk]
    refine Gives.ite (fun h => nomatch h) fun _ => Gives.require fun hgot => ?_
    have h6 : (d.read .own headerSize (lengthOf head - headerSize)).buf 6 = pkByte pk 6 :=
      pkByte_of_view hv' (lt_of_got hv' hgot)
    rw [h6]
    refine Gives.ite (fun hreply => ?_) fun hother => ?_
    · exact Gives.pure ⟨rfl, nofun, fun _ => ⟨pk, rfl, hreply, hv'⟩⟩
    · refine Gives.bind (execReverseCmd_effect hv' (whole_of_wholePacket hlen hpk).1) ?_
      rintro ⟨stat, d'⟩ ⟨halike, herr⟩
      refine Gives.ite (fun hstat => Gives.pure ?_) fun _ => Gives.pure ?_
      · obtain ⟨hcmd, h6⟩ := herr hstat
        refine ⟨?_, fun _ pk' hpk' => ?_, fun hzero => absurd hzero hstat⟩
        · rw [halike.own, executed, if_pos hcmd, h6, if_neg (by decide)]
          rfl
        · cases hpk'
          exact ⟨hcmd, h6⟩
      · exact ⟨pk, rfl, not_not.mp hother, halike.own⟩

theorem firmwareHack_gives {head : List UInt8} {γ : Type}
    {f : Option Nat × Device → Except PacketFault γ} {Q : γ → Prop}
    (hv : d.view .own = fun i => head[i]?) (hlen : head.length = headerSize)
    (hnone : shiftedPacket head (flat d.input) = none → ∀ d', d'.channel = d.channel →
      Gives Q (f (none, d')))
    (hf : ∀ d' head', d'.view .own = (fun i => head'[i]?) → head'.length = headerSize →
      lengthOf head' ≤ bufferSize → d'.channel = d.channel →
        shiftedPacket head (flat d.input) = wholePacket head' (flat d'.input) →
          Gives Q (f (some (lengthOf head'), d'))) :
    Gives Q (firmwareHack d >>= f) := by
  rw [shiftedPacket] at hnone hf
  rw [firmwareHack_eq hv hlen]
  by_cases hbad : lengthOf (head.drop 1 ++ (pullFlat (flat d.input) 1).1) = 0
      ∨ bufferSize < lengthOf (head.drop 1 ++ (pullFlat (flat d.input) 1).1)
  · rw [if_pos hbad]
    exact hnone (if_neg (by lia)) _ rfl
  · rw [if_neg hbad]
    by_cases hnext : (pullFlat (flat d.input) 1).1.length = 1
    · rw [if_neg (not_not_intro hnext)]
      have hlen' := (length_shifted hlen).mpr hnext
      refine hf _ _ (view_shifted hv hlen hnext) hlen' (by lia) rfl ?_
      exact (if_pos ⟨hlen', by lia, by lia⟩).trans
        (congrArg _ (flat_read (d := d.shifted)).symm)
    · rw [if_pos hnext]
      exact hnone (if_neg fun h => hnext ((length_shifted hlen).mp h.1)) _ rfl

/-- **A turn of the wait for a reply.** -/
theorem replyStep_effect :
    Gives (Replied (replyPacket p (flat d.input)) d.channel) (replyStep p d) := by
  rw [replyStep, header_eq]
  refine Gives.ite (fun hlen => Gives.pure ?_) fun hlen => ?_
  · cases hpk : replyPacket p (flat d.input) with
    | none => exact replied_none (by decide) rfl
    | some pk => exact absurd (length_of_replyPacket hpk) hlen
  · have hlen := not_not.mp hlen
    have hv := view_header (d := d) .own
    have hbuf := length_of_view hv hlen
    rw [cells_own] at hbuf
    rw [hbuf, replyPacket, packet, ← flat_header (d := d) .own]
    generalize (pullFlat (flat d.input) headerSize).1 = head at *
    refine Gives.ite (fun hmax => Gives.pure ?_) fun hmax => Gives.ite (fun hzero => ?_) fun hzero => ?_
    · rw [if_pos (by omega), if_neg fun h => by omega]
      exact replied_none (by decide) rfl
    · rw [if_neg (not_not_intro hzero)]
      cases p with
      | dot4 =>
        rw [if_neg (by simp)]
        exact Gives.pure (replied_none (by decide) rfl)
      | mlc =>
        rw [if_pos ⟨rfl, hlen⟩]
        refine firmwareHack_gives hv hlen (fun hnone d' hd' => ?_) fun d' head' hv' hlen' hmax hd' heq => ?_
        · rw [hnone]
          exact Gives.pure (replied_none (by decide) hd')
        · rw [heq, ← channel_header_own, ← hd']
          exact replyBody_effect hv' hlen' hmax
    · rw [if_pos hzero, if_pos ⟨hlen, by omega⟩]
      exact replyBody_effect hv hlen (by omega)

end Wait

/-! ## Waiting for data -/

def dataPacket (w : List (Option UInt8)) : Option (List UInt8) :=
  let head := (pullFlat w headerSize).1
  if head.length = headerSize ∧ lengthOf head ≤ headerSize + bufferSize then
    wholePacket head (pullFlat w headerSize).2
  else none

section Data

variable {p : Proto} {r : Ref} {d : Device}

theorem placeCommand_one {ps : List (List UInt8)} (h : ps.length ≤ 1) (off : Nat) :
    (placeCommand d r off ps).2 = d.receive r off ps.flatten := by
  match ps with
  | [] => exact receive_nil.symm
  | [l] =>
    rw [List.flatten_singleton]
    rfl
  | _ :: _ :: _ => simp at h

theorem placeCommand_read {n : Nat} (h : (pull d.input n).1.length ≤ 1) :
    (placeCommand { d with input := (pull d.input n).2 } r headerSize (pull d.input n).1).2
      = d.read r headerSize n := by
  rw [placeCommand_one h, pull_flatten]
  cases r with
  | own => rfl
  | rbuf c => rfl

theorem view_body {head : List UInt8} (hv : d.view r = fun i => head[i]?)
    (hlen : head.length = headerSize) (n : Nat) :
    (d.read r headerSize n).view r = fun i => (head ++ (pullFlat (flat d.input) n).1)[i]? :=
  view_read.trans (view_receive_next hv hlen.symm)

/-- How a turn of the wait for data ends that has met a packet for someone else. -/
def Aside (r : Ref) (pk? : Option (List UInt8)) (channel : Nat → Channel) :
    Device ⊕ (Nat × Device) → Prop
  | .inl d' => ∃ pk, pk? = some pk
      ∧ (pkByte pk 0 ≠ 0 → Fits pk (channel (pkByte pk 0).toNat))
      ∧ Alike r (executed pk channel) d'.channel
  | .inr (_, d') => (∀ c, (d'.channel c).bare = (channel c).bare)
      ∧ ∀ pk, pk? = some pk → ¬ IsCommand pk
        ∧ (pkByte pk 0 = pkByte pk 1 → ¬ Fits pk (channel (pkByte pk 0).toNat))

theorem commandAmongData_effect {head : List UInt8} (hv : d.view r = fun i => head[i]?)
    (hlen : head.length = headerSize) (h0 : pkByte head 0 = 0)
    (hone : (pull d.input (lengthOf head - headerSize)).1.length ≤ 1) :
    Gives (Aside r (wholePacket head (flat d.input)) d.channel)
      (commandAmongData p r (lengthOf head) d) := by
  refine Gives.require fun _ => ?_
  dsimp only
  have hplace := placeCommand_read (r := r) hone
  refine Gives.ite (fun hpart => Gives.pure ⟨fun c => ?_, fun pk hpk => ?_⟩) fun hall => ?_
  · rw [hplace]
    exact (alike_read _ _ c).1
  · rw [pull_flatten] at hpart
    exact absurd (Option.ite_none_right_eq_some.mp hpk).1 hpart
  · rw [not_not, pull_flatten] at hall
    have hpk : wholePacket head (flat d.input) = some _ := if_pos hall
    obtain ⟨hwhole, -, hget⟩ := whole_of_wholePacket hlen hpk
    rw [hplace]
    refine Gives.bind (execReverseCmd_effect (view_body hv hlen _) hwhole) fun x hx => ?_
    refine Gives.pure ⟨_, hpk, fun hne => ?_, ((alike_read _ _).executed _).trans hx.1⟩
    exact absurd ((hget 0 (by decide)).trans h0) hne

theorem dataAside_effect {head : List UInt8} {c : Nat} (hv : d.view (.rbuf c) = fun i => head[i]?)
    (hlen : head.length = headerSize) (h0 : pkByte head 0 ≠ 0)
    (heq : pkByte head 0 = pkByte head 1) (hother : (pkByte head 0).toNat ≠ c) :
    Gives (Aside (.rbuf c) (wholePacket head (flat d.input)) d.channel)
      (dataAside (.rbuf c) (lengthOf head) d) := by
  have hcell : ∀ i < headerSize, d.cells (.rbuf c) i = pkByte head i :=
    fun i hi => pkByte_of_view hv (by lia)
  refine Gives.require fun _ => ?_
  dsimp only
  rw [hcell 0 (by decide)]
  have hrejected : ∀ pk, wholePacket head (flat d.input) = some pk →
      ¬ ((d.channel (pkByte head 0).toNat).p2hcredit ≠ 0
        ∧ lengthOf head + (d.channel (pkByte head 0).toNat).rcnt ≤ bufferSize + headerSize) →
      ¬ IsCommand pk
        ∧ (pkByte pk 0 = pkByte pk 1 → ¬ Fits pk (d.channel (pkByte pk 0).toNat)) := by
    intro pk hpk hno
    obtain ⟨-, hword, hget⟩ := whole_of_wholePacket hlen hpk
    have hb0 := hget 0 (by decide)
    refine ⟨fun h => h0 (hb0 ▸ h.1), ?_⟩
    rw [hb0]
    exact fun _ hfits => hno (hword ▸ hfits)
  refine Gives.ite (fun hnone => Gives.pure ⟨fun _ => rfl, fun pk hpk => ?_⟩) fun hcredit => ?_
  · exact hrejected pk hpk fun h => h.1 hnone
  refine Gives.ite (fun hfull => Gives.pure ⟨fun _ => rfl, fun pk hpk => ?_⟩) fun hroom =>
    Gives.require fun _ => ?_
  · exact hrejected pk hpk fun h => by lia
  refine Gives.ite (fun hpart => Gives.pure ⟨fun c' => ?_, fun pk hpk => ?_⟩) fun hall => Gives.pure ?_
  · by_cases h : c' = (pkByte head 0).toNat
    · rw [h]
      simp [Device.setChannel, Channel.bare]
    · simp [Device.setChannel, Function.update_of_ne h]
  · rw [pull_flatten] at hpart
    exact absurd (Option.ite_none_right_eq_some.mp hpk).1 hpart
  · rw [not_not, pull_flatten] at hall
    have hpk : wholePacket head (flat d.input) = some _ := if_pos hall
    obtain ⟨-, hword, hget⟩ := whole_of_wholePacket hlen hpk
    have hb0 := hget 0 (by decide)
    have hb1 := hget 1 (by decide)
    have hfits : Fits (head ++ (pullFlat (flat d.input) (lengthOf head - headerSize)).1)
        (d.channel (pkByte head 0).toNat) := ⟨hcredit, by rw [hword]; lia⟩
    refine ⟨_, hpk, fun _ => hb0.symm ▸ hfits, ?_⟩
    rw [executed, if_neg fun h => h0 (hb0 ▸ h.1),
      if_pos ⟨by rw [hb0, hb1, heq], hb0.symm ▸ hfits⟩, hb0]
    have h4 : (d.channel c).rbuf 4 = pkByte head 4 := hcell 4 (by decide)
    have hb4 := hget 4 (by decide)
    have hdrop : (head ++ (pullFlat (flat d.input) (lengthOf head - headerSize)).1).drop headerSize
        = (pullFlat (flat d.input) (lengthOf head - headerSize)).1 := by
      rw [← hlen, List.drop_left]
    have hlast : (head ++ (pullFlat (flat d.input) (lengthOf head - headerSize)).1).length - headerSize
        = lengthOf head - headerSize := by
      rw [List.length_append, hall, hlen]
      lia
    rw [Channel.stored, hb4, hdrop, hlast, pull_flatten]
    simp only [Device.setChannel, Device.cells, Function.update_self,
      Function.update_of_ne hother.symm, Function.update_idem, h4]
    exact .refl _ _

/-- The packet that was waited for: its credit is taken and what came of its data stands at the
front of the buffer. -/
def OwnRead (c : Nat) (head body : List UInt8) (channel : Nat → Channel) (x : Nat × Device) : Prop :=
  x.1 = body.length ∧ ∃ b, x.2.channel = Function.update channel c { channel c with
    h2pcredit := (channel c).h2pcredit + (pkByte head 4).toUInt16
    rbuf := overwrite b 0 body }

theorem ownData_effect {head : List UInt8} {c : Nat} (hv : d.view (.rbuf c) = fun i => head[i]?)
    (hlen : head.length = headerSize) (hmax : lengthOf head ≤ headerSize + bufferSize) :
    Gives (fun x => ∃ y, x = .inr y
        ∧ OwnRead c head (pullFlat (flat d.input) (lengthOf head - headerSize)).1 d.channel y)
      (ownData c (lengthOf head) d) := by
  have h4 : (d.channel c).rbuf 4 = pkByte head 4 := pkByte_of_view hv (by rw [hlen]; decide)
  rw [ownData, h4]
  dsimp only
  refine Gives.ite (fun hlong => ?_) fun hshort => Gives.pure ⟨_, rfl, ?_⟩
  · rw [readInto_eq (by lia)]
    refine Gives.pure ⟨_, rfl, rfl, (d.channel c).rbuf, ?_⟩
    simp only [Device.read, Device.receive, Device.setCells, Device.setChannel, Device.cells,
      Function.update_self, Function.update_idem]
  · have hzero : lengthOf head - headerSize = 0 := by lia
    rw [hzero, pullFlat_zero]
    refine ⟨rfl, (d.channel c).rbuf, ?_⟩
    have hover : overwrite (d.channel c).rbuf 0 [] = (d.channel c).rbuf := by
      funext i
      exact if_neg fun h => by simp at h
    rw [hover]
    rfl

/-- **A turn of the wait for data**: no whole header came; a packet for someone else; the packet
that was waited for. -/
def DataEffect (c : Nat) (d : Device) (x : Device ⊕ (Nat × Device)) : Prop :=
  let w := flat d.input
  let head := (pullFlat w headerSize).1
  let own := (pkByte head 0 = (d.channel c).sockid ∨ pkByte head 1 = (d.channel c).sockid)
    ∧ lengthOf head ≤ headerSize + bufferSize
  (head.length ≠ headerSize ∧ ∃ d', x = .inr (head.length, d')
      ∧ Alike (.rbuf c) d.channel d'.channel)
    ∨ (head.length = headerSize ∧ ¬ own ∧ Aside (.rbuf c) (dataPacket w) d.channel x)
    ∨ (head.length = headerSize ∧ own ∧ ∃ y, x = .inr y ∧ OwnRead c head
        (pullFlat (pullFlat w headerSize).2 (lengthOf head - headerSize)).1 d.channel y)

theorem Aside.of_header {c : Nat} {pk? : Option (List UInt8)} {x : Device ⊕ (Nat × Device)}
    (h : Aside (.rbuf c) pk? (d.header (.rbuf c)).channel x) :
    Aside (.rbuf c) pk? d.channel x := by
  have halike : Alike (.rbuf c) d.channel (d.header (.rbuf c)).channel := alike_read _ _
  cases x with
  | inl d' =>
    obtain ⟨pk, hpk, hfits, heff⟩ := h
    refine ⟨pk, hpk, fun hne => ?_, (halike.executed pk).trans heff⟩
    have hbare := bare_eq (halike (pkByte pk 0).toNat).1
    have := hfits hne
    rw [hbare] at this
    exact this
  | inr y =>
    refine ⟨fun c' => (h.1 c').trans (halike c').1, fun pk hpk => ⟨(h.2 pk hpk).1, fun heq hfits => ?_⟩⟩
    refine (h.2 pk hpk).2 heq ?_
    rw [bare_eq (halike (pkByte pk 0).toNat).1]
    exact hfits

theorem dataStep_effect {c : Nat} (hcut : CutOk c d) (hsock : (d.channel c).sockid.toNat = c) :
    Gives (DataEffect c d) (dataStep p c d) := by
  have hv := view_header (d := d) (.rbuf c)
  have halike : Alike (.rbuf c) d.channel (d.header (.rbuf c)).channel := alike_read _ _
  rw [dataStep, header_eq]
  refine Gives.ite (fun hlen => Gives.pure (.inl ⟨hlen, _, rfl, halike⟩)) fun hlen => ?_
  have hlen := not_not.mp hlen
  have hbuf := length_of_view hv hlen
  have h0 := pkByte_of_view hv (i := 0) (by rw [hlen]; decide)
  have h1 := pkByte_of_view hv (i := 1) (by rw [hlen]; decide)
  have hpacket : ∀ h : lengthOf (pullFlat (flat d.input) headerSize).1 ≤ headerSize + bufferSize,
      dataPacket (flat d.input) = wholePacket (pullFlat (flat d.input) headerSize).1
        (flat (d.header (.rbuf c)).input) := by
    intro h
    rw [flat_header]
    exact if_pos ⟨hlen, h⟩
  have hlong : ¬ lengthOf (pullFlat (flat d.input) headerSize).1 ≤ headerSize + bufferSize →
      dataPacket (flat d.input) = none := fun h => if_neg fun hc => h hc.2
  have hone := hcut.one hlen
  rw [cells_rbuf] at hbuf h0 h1
  rw [hbuf, h0, h1, sockid_header] at hone
  unfold DataEffect
  dsimp only
  rw [hbuf, h0, h1, sockid_header]
  have hrest := flat_header (d := d) (.rbuf c)
  rw [← hrest]
  generalize (pullFlat (flat d.input) headerSize).1 = head at *
  refine Gives.ite (fun hmax => Gives.pure ?_) fun hmax => Gives.ite (fun hother => ?_) fun hown => ?_
  · refine .inr (.inl ⟨hlen, fun h => by omega, fun c' => (halike c').1, fun pk hpk => ?_⟩)
    rw [hlong (by omega)] at hpk
    cases hpk
  · rw [hpacket (by omega)]
    have hnot : ¬ ((pkByte head 0 = (d.channel c).sockid ∨ pkByte head 1 = (d.channel c).sockid)
        ∧ lengthOf head ≤ headerSize + bufferSize) := by
      rintro ⟨h | h, -⟩
      · exact hother.1 h
      · exact hother.2 h
    refine Gives.ite (fun hcmd => ?_) fun hdata => Gives.ite (fun heq => ?_) fun hforeign => Gives.pure ?_
    · refine (commandAmongData_effect hv hlen hcmd.1 (hone (by omega) hother.1 hcmd)).mono ?_
      exact fun x hx => .inr (.inl ⟨hlen, hnot, hx.of_header⟩)
    · have hne : (pkByte head 0).toNat ≠ c := fun h =>
        hother.1 (UInt8.toNat_inj.mp (h.trans hsock.symm))
      refine (dataAside_effect hv hlen (fun h => hdata ⟨h, heq ▸ h⟩) heq hne).mono ?_
      exact fun x hx => .inr (.inl ⟨hlen, hnot, hx.of_header⟩)
    · refine .inr (.inl ⟨hlen, hnot, fun c' => (halike c').1, fun pk hpk => ?_⟩)
      obtain ⟨-, -, hget⟩ := whole_of_wholePacket hlen hpk
      rw [IsCommand, hget 0 (by decide), hget 1 (by decide)]
      exact ⟨hdata, fun heq => absurd heq hforeign⟩
  · refine (ownData_effect hv hlen (by omega)).mono ?_
    rintro x ⟨y, rfl, hn, b, hchannel⟩
    refine .inr (.inr ⟨hlen, ⟨?_, by omega⟩, y, rfl, hn, b, ?_⟩)
    · by_contra hcon
      push Not at hcon
      exact hown hcon
    · rw [hchannel]
      funext c'
      by_cases h : c' = c
      · rw [h, Function.update_self, Function.update_self, bare_eq (halike c).1]
      · rw [Function.update_of_ne h, Function.update_of_ne h]
        exact (halike c').2 fun heq => h (Ref.rbuf.inj heq).symm

end Data

end Hplip.Hpmud
