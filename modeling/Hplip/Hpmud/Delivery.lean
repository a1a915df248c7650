import Mathlib
import Hplip.Hpmud.Credit

/-!
# Delivery to the client

A data packet can come in the wait for data of its own channel, in that of another channel, in
the wait for a reply and in the wait for credit. The code stores it in three ways. What is the
client handed in the end?
-/

namespace Hplip.Hpmud

open Pieces Checked Runs

/-! ## What came and what was handed out -/

/-- A data packet for channel `c`. -/
def IsData (pk : List UInt8) (c : Nat) : Prop :=
  ¬ IsCommand pk ∧ pkByte pk 0 = pkByte pk 1 ∧ c = (pkByte pk 0).toNat

instance (pk : List UInt8) (c : Nat) : Decidable (IsData pk c) :=
  inferInstanceAs (Decidable (_ ∧ _ ∧ _))

/-- The payloads that came and the bytes that were handed out, the credit issued and the data
packets that came, by channel. -/
structure Traffic where
  received : Nat → List UInt8
  returned : Nat → List UInt8
  issued : Nat → Nat
  arrived : Nat → Nat

def Traffic.packet (g : Traffic) (pk : List UInt8) : Traffic :=
  { g with
    received := fun c => g.received c ++ if IsData pk c then pk.drop headerSize else []
    arrived := fun c => g.arrived c + if IsData pk c then 1 else 0 }

/-- The bytes of channel `c` that an act hands to the client. -/
def handed (c : Nat) (x : Taken Device Act) : List UInt8 :=
  match x.act with
  | .cut c' size => if c' = c then (cutBuf c' size x.before).1 else []
  | _ => []

def IsRefusal (pk : List UInt8) : Prop :=
  IsCommand pk ∧ pkByte pk 6 = 0x83 ∧ pkByte pk 7 ≠ 0

instance (pk : List UInt8) : Decidable (IsRefusal pk) := inferInstanceAs (Decidable (_ ∧ _ ∧ _))

/-- The credit that the peripheral has after a credit command, unless it refuses. -/
def issue (p : Proto) (c : Nat) (x : Taken Device Act) : Nat :=
  match x.act with
  | .answer c' (.credit n) =>
    if c' = c ∧ ∀ pk ∈ replyPacket p (flat x.before.input), ¬ IsRefusal pk then n.toNat else 0
  | _ => 0

def traffic (p : Proto) (g : Traffic) (x : Taken Device Act) : Traffic :=
  let g := match x.act.packet p x.before with
    | none => g
    | some pk => g.packet pk
  { g with
    returned := fun c => g.returned c ++ handed c x
    issued := fun c => g.issued c + issue p c x }

/-- What was handed out and what is pending is what came, and the credit that is left is what
was issued and not used. An empty buffer is filled from its front. -/
def Delivered (d : Device) (g : Traffic) : Prop :=
  ∀ c, g.returned c ++ (d.channel c).pending = g.received c
    ∧ (d.channel c).p2hcredit.toNat + g.arrived c = g.issued c
    ∧ ((d.channel c).rcnt = 0 → (d.channel c).rindex = 0)

/-! ## Acts that deliver -/

/-- A data packet that is executed is stored, behind bytes that begin at the front. -/
def ExecStored (d : Device) (pk : List UInt8) : Prop :=
  ∀ c, IsData pk c → Fits pk (d.channel c) ∧ (d.channel c).rindex = 0

/-- The packet that ends the wait for a reply is no data packet, and a credit command has its
reply. -/
def AnswerDelivers (p : Proto) (c : Nat) (r : Request) (d : Device) : Prop :=
  (∀ pk, replyPacket p (flat d.input) = some pk → IsCommand pk)
    ∧ ∀ n, r = .credit n → (d.channel c).p2hcredit.toNat + n.toNat < 65536
      ∧ ∃ pk, replyPacket p (flat d.input) = some pk ∧ pkByte pk 6 = 0x83

/-- The wait for data ends without a byte, or with a packet that has data, names its channel
twice and has credit. -/
def OwnDelivers (c : Nat) (d : Device) : Prop :=
  (pullFlat (flat d.input) headerSize).1 = []
    ∨ ∃ pk, dataPacket (flat d.input) = some pk ∧ IsData pk c ∧ headerSize < pk.length
      ∧ (d.channel c).p2hcredit ≠ 0

/-- The acts that deliver. The wait for data is for an empty buffer. -/
def DeliveryOk (p : Proto) (x : Taken Device Act) : Prop :=
  let d := x.before
  match x.act with
  | .command _ => ∀ pk, Hpmud.packet (flat d.input) = some pk → ExecStored d pk
  | .reply _ => ∀ pk, replyPacket p (flat d.input) = some pk → ExecStored d pk
  | .answer c r => AnswerDelivers p c r d
  | .data c => (d.channel c).rcnt = 0 ∧ Named d c ∧ CutOk c d
      ∧ ∀ pk, dataPacket (flat d.input) = some pk → ExecStored d pk
  | .last c => (d.channel c).rcnt = 0 ∧ Named d c ∧ CutOk c d ∧ OwnDelivers c d
  | .emptied c => (d.channel c).rcnt = 0
  | _ => True

/-! ## One channel -/

section Channel

variable {ch ch' : Channel} {pk : List UInt8}

/-- What the client sees of a channel stays. -/
def Unread (ch ch' : Channel) : Prop :=
  ch'.pending = ch.pending ∧ ch'.p2hcredit = ch.p2hcredit ∧ ch'.rcnt = ch.rcnt
    ∧ ch'.rindex = ch.rindex

theorem Unread.rfl : Unread ch ch := ⟨.refl _, .refl _, .refl _, .refl _⟩

theorem pending_empty (h : ch.rcnt = 0) : ch.pending = [] := by
  rw [Channel.pending, h]
  exact List.map_nil

theorem Unread.of_bare (h : ch'.bare = ch.bare) (hempty : ch.rcnt = 0) : Unread ch ch' := by
  have hbare := bare_eq h
  rw [hbare]
  exact ⟨(pending_empty hempty).symm ▸ pending_empty hempty, .refl _, .refl _, .refl _⟩

theorem map_getD_range (l : List UInt8) : (List.range l.length).map (fun i => l.getD i 0) = l := by
  refine List.ext_getElem (by simp) fun i h1 h2 => ?_
  simp [List.getD, List.getElem?_eq_getElem h2]

theorem pending_overwrite {b : Nat → UInt8} {l : List UInt8} (hindex : ch.rindex = 0)
    (hb : ∀ i < ch.rcnt, b i = ch.rbuf i) (hch : ch'.rbuf = overwrite b ch.rcnt l)
    (hrcnt : ch'.rcnt = ch.rcnt + l.length) (hindex' : ch'.rindex = 0) :
    ch'.pending = ch.pending ++ l := by
  rw [Channel.pending, Channel.pending, hch, hrcnt, hindex, hindex']
  simp only [Nat.zero_add]
  rw [List.range_add, List.map_append, List.map_map]
  congr 1
  · refine List.map_congr_left fun i hi => ?_
    have hi := List.mem_range.mp hi
    rw [← hb i hi, overwrite, if_neg (by lia)]
  · refine .trans (List.map_congr_left fun i hi => ?_) (map_getD_range l)
    have hi := List.mem_range.mp hi
    show overwrite b ch.rcnt l (ch.rcnt + i) = _
    rw [overwrite, if_pos (by lia), Nat.add_sub_cancel_left]

theorem pending_stored (hindex : ch.rindex = 0) :
    (ch.stored pk).pending = ch.pending ++ pk.drop headerSize := by
  refine pending_overwrite (b := ch.rbuf) hindex (fun _ _ => .refl _) (.refl _) ?_ hindex
  rw [List.length_drop]
  exact .refl _

theorem cutBuf_pending (d : Device) (c size : Nat) :
    (cutBuf c size d).1 ++ ((cutBuf c size d).2.channel c).pending = (d.channel c).pending := by
  rw [cutBuf]
  by_cases h : size < (d.channel c).rcnt
  · rw [if_pos h]
    have hsplit : (d.channel c).rcnt = size + ((d.channel c).rcnt - size) := by lia
    have hrest : ((d.setChannel c { d.channel c with
          rindex := (d.channel c).rindex + size
          rcnt := (d.channel c).rcnt - size }).channel c).pending
        = (List.range ((d.channel c).rcnt - size)).map fun i =>
          (d.channel c).rbuf ((d.channel c).rindex + (size + i)) := by
      simp only [Device.setChannel, Function.update_self, Channel.pending, Nat.add_assoc]
    rw [hrest]
    conv_rhs => rw [Channel.pending, hsplit, List.range_add, List.map_append, List.map_map]
    rfl
  · rw [if_neg h]
    have hrest : ((d.setChannel c { d.channel c with rindex := 0, rcnt := 0 }).channel c).pending
        = [] := pending_empty (by simp [Device.setChannel])
    rw [hrest, List.append_nil]
    rfl

theorem executed_unread (channel : Nat → Channel) {c : Nat} (h : ¬ IsData pk c) :
    Unread (channel c) (executed pk channel c) := by
  rw [executed]
  by_cases hcmd : IsCommand pk
  · rw [if_pos hcmd]
    by_cases h3 : pkByte pk 6 = 3
    · rw [if_pos h3]
      by_cases heq : c = (pkByte pk 7).toNat
      · rw [← heq, Function.update_self]
        exact ⟨.refl _, .refl _, .refl _, .refl _⟩
      · rw [Function.update_of_ne heq]
        exact .rfl
    · rw [if_neg h3]
      exact .rfl
  · rw [if_neg hcmd]
    by_cases hstore : pkByte pk 0 = pkByte pk 1 ∧ Fits pk (channel (pkByte pk 0).toNat)
    · rw [if_pos hstore, Function.update_of_ne fun heq => h ⟨hcmd, hstore.1, heq⟩]
      exact .rfl
    · rw [if_neg hstore]
      exact .rfl

theorem executed_stored {channel : Nat → Channel} {c : Nat} (h : IsData pk c)
    (hfits : Fits pk (channel c)) : executed pk channel c = (channel c).stored pk := by
  obtain ⟨hdata, heq, rfl⟩ := h
  rw [executed, if_neg hdata, if_pos ⟨heq, hfits⟩, Function.update_self]

theorem sub_one_toNat {a : UInt16} (h : a ≠ 0) : (a - 1).toNat + 1 = a.toNat := by
  have hpos : a.toNat ≠ 0 := fun h0 => h (UInt16.toNat_inj.mp h0)
  have hle : (1 : UInt16).toNat ≤ a.toNat := Nat.one_le_iff_ne_zero.mpr hpos
  rw [UInt16.toNat_sub_of_le _ _ (UInt16.le_iff_toNat_le.mpr hle)]
  exact Nat.sub_add_cancel hle

end Channel

/-! ## One act -/

section Steps

variable {p : Proto} {d d' : Device} {g : Traffic} {pk : List UInt8} {c n : Nat}

theorem Delivered.congr (h : Delivered d g) (hsame : ∀ c, Unread (d.channel c) (d'.channel c)) :
    Delivered d' g := by
  intro c
  obtain ⟨hpending, hcredit, hrcnt, hindex⟩ := hsame c
  rw [hpending, hcredit, hrcnt, hindex]
  exact h c

theorem Delivered.executed (h : Delivered d g) (hok : ExecStored d pk)
    (hsame : ∀ c, Unread (executed pk d.channel c) (d'.channel c)) :
    Delivered d' (g.packet pk) := by
  intro c
  obtain ⟨hpending, hcredit, hrcnt, hindex⟩ := hsame c
  obtain ⟨hbytes, hleft, hempty⟩ := h c
  rw [hpending, hcredit, hrcnt, hindex]
  by_cases hc : IsData pk c
  · obtain ⟨hfits, hfront⟩ := hok c hc
    rw [executed_stored hc hfits]
    refine ⟨?_, ?_, fun _ => hfront⟩
    · show g.returned c ++ _ = g.received c ++ _
      rw [pending_stored hfront, if_pos hc, ← hbytes, List.append_assoc]
    · have := sub_one_toNat hfits.1
      show ((d.channel c).p2hcredit - 1).toNat + (g.arrived c + _) = g.issued c
      rw [if_pos hc]
      lia
  · obtain ⟨hpending', hcredit', hrcnt', hindex'⟩ := executed_unread d.channel hc
    rw [hpending', hcredit', hrcnt', hindex']
    refine ⟨?_, ?_, hempty⟩
    · show g.returned c ++ _ = g.received c ++ _
      rw [if_neg hc, List.append_nil, hbytes]
    · show _ + (g.arrived c + _) = g.issued c
      rw [if_neg hc, Nat.add_zero, hleft]

theorem Delivered.packet (h : Delivered d g) {a : Act}
    (hquiet : ∀ c, handed c ⟨d, a, d'⟩ = [] ∧ issue p c ⟨d, a, d'⟩ = 0)
    (hnone : a.packet p d = none → ∀ c, Unread (d.channel c) (d'.channel c))
    (hsome : ∀ pk, a.packet p d = some pk → Delivered d' (g.packet pk)) :
    Delivered d' (traffic p g ⟨d, a, d'⟩) := by
  have hnoted : traffic p g ⟨d, a, d'⟩ = match a.packet p d with
      | none => g
      | some pk => g.packet pk := by
    rw [traffic]
    simp only [hquiet, List.append_nil, Nat.add_zero]
  rw [hnoted]
  cases hpk : a.packet p d with
  | none => exact h.congr (hnone hpk)
  | some pk => exact hsome pk hpk

theorem delivered_command {stat : Nat} (h : Delivered d g) (hrun : reverseCmd p d = .ok (stat, d'))
    (hok : DeliveryOk p ⟨d, .command c, d'⟩) :
    Delivered d' (traffic p g ⟨d, .command c, d'⟩) := by
  have heff := reverseCmd_effect _ hrun
  refine h.packet (fun _ => ⟨rfl, rfl⟩) (fun hnone c' => ?_) fun pk hpk => ?_
  · have hnone' : packet (flat d.input) = none := hnone
    rw [heff, hnone']
    exact .rfl
  · have hpk' : packet (flat d.input) = some pk := hpk
    refine h.executed (hok pk hpk) fun c' => ?_
    rw [heff, hpk']
    exact .rfl

theorem delivered_reply (h : Delivered d g) (hrun : replyStep p d = .ok (.inl d'))
    (hok : DeliveryOk p ⟨d, .reply c, d'⟩) :
    Delivered d' (traffic p g ⟨d, .reply c, d'⟩) := by
  obtain ⟨pk, hpk, -, hchannel⟩ := replyStep_effect _ hrun
  refine h.packet (fun _ => ⟨rfl, rfl⟩) (fun hnone c' => ?_) fun pk' hpk' => ?_
  · exact absurd (hpk.symm.trans hnone) (Option.some_ne_none pk)
  · cases hpk.symm.trans hpk'
    refine h.executed (hok pk hpk) fun c' => ?_
    rw [hchannel]
    exact .rfl

theorem delivered_data (h : Delivered d g) (hrun : dataStep p c d = .ok (.inl d'))
    (hok : DeliveryOk p ⟨d, .data c, d'⟩) :
    Delivered d' (traffic p g ⟨d, .data c, d'⟩) := by
  obtain ⟨hempty, hsock, hcut, hexec⟩ := hok
  dsimp only at hempty hsock hcut hexec
  obtain ⟨-, _, heq, -⟩ | ⟨hlen, hnot, pk, hpk, -, halike⟩ | ⟨-, -, _, heq, -⟩ :=
    dataStep_effect hcut hsock _ hrun
  · cases heq
  · refine h.packet (fun _ => ⟨rfl, rfl⟩) (fun hnone c' => ?_) fun pk' hpk' => ?_
    · exact absurd (hpk.symm.trans hnone) (Option.some_ne_none pk)
    · cases hpk.symm.trans hpk'
      refine h.executed (hexec pk hpk) fun c' => ?_
      by_cases hc : c' = c
      · subst hc
        -- the packet is for someone else, so the buffer in use stays empty
        have hother : ¬ IsData pk c' := by
          rintro ⟨-, -, h0⟩
          obtain ⟨⟨-, hmax⟩, hwhole⟩ := Option.ite_none_right_eq_some.mp hpk
          have hbyte := (whole_of_wholePacket hlen hwhole).2.2 0 (by decide)
          refine hnot ⟨.inl (UInt8.toNat_inj.mp ?_), hmax⟩
          rw [← hbyte, ← h0, hsock]
        have hrcnt := (executed_unread d.channel hother).2.2.1
        exact .of_bare (halike c').1 (hrcnt.trans hempty)
      · rw [(halike c').2 fun heq => hc (Ref.rbuf.inj heq).symm]
        exact .rfl
  · cases heq

theorem delivered_nothing (h : Delivered d g) (hrun : dataStep p c d = .ok (.inr (n, d')))
    (hempty : (d.channel c).rcnt = 0) (hsock : Named d c) (hcut : CutOk c d)
    (hnothing : (pullFlat (flat d.input) headerSize).1 = []) :
    Delivered (dataRead c n d') (traffic p g ⟨d, .last c, dataRead c n d'⟩) := by
  have heff := dataStep_effect hcut hsock _ hrun
  unfold DataEffect at heff
  dsimp only at heff
  rw [hnothing] at heff
  obtain ⟨-, x, heq, halike⟩ | ⟨hlen, -⟩ | ⟨hlen, -⟩ := heff
  · obtain ⟨rfl, rfl⟩ := Prod.mk.inj (Sum.inr.inj heq)
    have hnone : dataPacket (flat d.input) = none := by
      rw [dataPacket, hnothing]
      rfl
    refine h.packet (fun _ => ⟨rfl, rfl⟩) (fun _ c' => ?_) fun pk hpk => ?_
    · by_cases hc : c' = c
      · subst hc
        have hbare : ((dataRead c' 0 d').channel c').bare = (d.channel c').bare := by
          rw [← (halike c').1, dataRead]
          have hrcnt : (d'.channel c').rcnt = 0 := by
            rw [bare_eq (halike c').1]
            exact hempty
          simp [Device.setChannel, Channel.bare, hrcnt]
        exact .of_bare hbare hempty
      · have hsame : (dataRead c 0 d').channel c' = d.channel c' := by
          rw [← (halike c').2 fun heq => hc (Ref.rbuf.inj heq).symm]
          exact Function.update_of_ne hc _ _
        show Unread _ ((dataRead c 0 d').channel c')
        rw [hsame]
        exact .rfl
    · exact absurd (hnone.symm.trans hpk) (by rintro ⟨⟩)
  · exact absurd hlen (by rintro ⟨⟩)
  · exact absurd hlen (by rintro ⟨⟩)

theorem delivered_own (h : Delivered d g) (hrun : dataStep p c d = .ok (.inr (n, d')))
    (hempty : (d.channel c).rcnt = 0) (hsock : Named d c) (hcut : CutOk c d)
    (hpk : dataPacket (flat d.input) = some pk) (hdata : IsData pk c)
    (hlong : headerSize < pk.length) (hcredit : (d.channel c).p2hcredit ≠ 0) :
    Delivered (dataRead c n d') (traffic p g ⟨d, .last c, dataRead c n d'⟩) := by
  obtain ⟨⟨hlen, hmax⟩, hwhole⟩ := Option.ite_none_right_eq_some.mp hpk
  have hget := (whole_of_wholePacket hlen hwhole).2.2
  have hbody : pk.drop headerSize = (pullFlat (pullFlat (flat d.input) headerSize).2
      (lengthOf (pullFlat (flat d.input) headerSize).1 - headerSize)).1 := by
    obtain ⟨-, heq⟩ := Option.ite_none_right_eq_some.mp hwhole
    rw [← Option.some.inj heq, List.drop_left' hlen]
  have hmine : pkByte (pullFlat (flat d.input) headerSize).1 0 = (d.channel c).sockid := by
    refine UInt8.toNat_inj.mp ?_
    rw [← hget 0 (by decide), ← hdata.2.2, hsock]
  have heff := dataStep_effect hcut hsock _ hrun
  unfold DataEffect at heff
  dsimp only at heff
  rw [← hbody] at heff
  obtain ⟨hshort, -⟩ | ⟨-, hnot, -⟩ | ⟨-, -, y, heq, hn, b, hchannel⟩ := heff
  · exact absurd hlen hshort
  · exact absurd ⟨.inl hmine, hmax⟩ hnot
  · obtain rfl : y = (n, d') := (Sum.inr.inj heq).symm
    dsimp only at hn hchannel
    refine h.packet (fun _ => ⟨rfl, rfl⟩) (fun hnone => ?_) fun pk' hpk' => ?_
    · exact absurd (hpk.symm.trans hnone) (Option.some_ne_none pk)
    cases hpk.symm.trans hpk'
    intro c'
    obtain ⟨hbytes, hleft, hfront⟩ := h c'
    by_cases hc : c' = c
    · subst hc
      have hn0 : n ≠ 0 := by
        rw [hn, List.length_drop]
        lia
      have hread : (dataRead c' n d').channel c' = { d'.channel c' with
          rcnt := n
          p2hcredit := (d'.channel c').p2hcredit - 1 } := by
        rw [dataRead, if_pos hn0]
        exact Function.update_self ..
      rw [hread, hchannel, Function.update_self]
      refine ⟨?_, ?_, fun hzero => absurd hzero hn0⟩
      · show g.returned c' ++ _ = g.received c' ++ _
        rw [if_pos hdata, ← hbytes, pending_empty hempty, List.append_nil]
        congr 1
        refine .trans (pending_overwrite (b := b)
          (rfl : ({ d.channel c' with rcnt := 0, rindex := 0 } : Channel).rindex = 0)
          (fun _ h => absurd h (Nat.not_lt_zero _)) rfl ?_ (hfront hempty)) (List.nil_append _)
        exact hn.trans (Nat.zero_add _).symm
      · have := sub_one_toNat hcredit
        show ((d.channel c').p2hcredit - 1).toNat + (g.arrived c' + _) = g.issued c'
        rw [if_pos hdata]
        lia
    · have hsame : (dataRead c n d').channel c' = d.channel c' := by
        refine (Function.update_of_ne hc _ _).trans ?_
        rw [hchannel, Function.update_of_ne hc]
      have hother : ¬ IsData pk c' := fun hcon => hc (hcon.2.2.trans hdata.2.2.symm)
      rw [hsame]
      refine ⟨?_, ?_, hfront⟩
      · show g.returned c' ++ _ = g.received c' ++ _
        rw [if_neg hother, List.append_nil, hbytes]
      · show _ + (g.arrived c' + _) = g.issued c'
        rw [if_neg hother, Nat.add_zero, hleft]

theorem delivered_last (h : Delivered d g) (hrun : dataStep p c d = .ok (.inr (n, d')))
    (hok : DeliveryOk p ⟨d, .last c, dataRead c n d'⟩) :
    Delivered (dataRead c n d') (traffic p g ⟨d, .last c, dataRead c n d'⟩) := by
  obtain ⟨hempty, hsock, hcut, hnothing | ⟨pk, hpk, hdata, hlong, hcredit⟩⟩ := hok
  · exact delivered_nothing h hrun hempty hsock hcut hnothing
  · exact delivered_own h hrun hempty hsock hcut hpk hdata hlong hcredit

/-! ### Replies -/

theorem packet_command (hcmd : IsCommand pk) : g.packet pk = g := by
  have hnot (c : Nat) : ¬ IsData pk c := fun hcon => hcon.1 hcmd
  simp [Traffic.packet, hnot]

theorem unread_setChannel {ch : Channel} (h : Unread (d.channel c) ch) (c' : Nat) :
    Unread (d.channel c') ((d.setChannel c ch).channel c') := by
  by_cases hc : c' = c
  · subst hc
    have hset : (d.setChannel c' ch).channel c' = ch := Function.update_self ..
    rw [hset]
    exact h
  · have hset : (d.setChannel c ch).channel c' = d.channel c' := Function.update_of_ne hc _ _
    rw [hset]
    exact .rfl

theorem accept_unread {r : Request} (hcredit : ∀ n, r ≠ .credit n) :
    Gives (fun d' => ∀ c', Unread (d.channel c') (d'.channel c')) (r.accept p c d) := by
  have hset (ch : Channel) (h : Unread (d.channel c) ch) (c' : Nat) :
      Unread (d.channel c') ((d.setChannel c ch).channel c') := unread_setChannel h c'
  have hword (i : Nat) : Gives (fun _ => True) (replyWord d i) := fun _ _ => trivial
  cases r with
  | opening =>
    cases p with
    | mlc => exact Gives.bind (hword _) fun _ _ => Gives.pure (hset _ .rfl)
    | dot4 =>
      refine Gives.bind (hword _) fun _ _ => Gives.bind (hword _) fun _ _ => ?_
      exact Gives.bind (hword _) fun _ _ => Gives.pure (hset _ .rfl)
  | closing => exact Gives.ok fun _ => .rfl
  | credit n => exact absurd rfl (hcredit n)
  | creditRequest => exact Gives.bind (hword _) fun _ _ => Gives.pure (hset _ .rfl)
  | socket =>
    cases p with
    | mlc => exact Gives.bind (hword _) fun _ _ => Gives.bind (hword _) fun _ _ => Gives.pure (hset _ .rfl)
    | dot4 => exact Gives.require fun _ => Gives.pure (hset _ .rfl)

theorem delivered_answer {stat : Nat} {r : Request} {d₁ : Device} {good : Bool}
    (h : Delivered d g) (hrun : replyStep p d = .ok (.inr (stat, d₁)))
    (hrest : (if good = false then .ok d₁ else r.accept p c d₁) = .ok d')
    (hcredit : ∀ n, r ≠ .credit n) (hok : DeliveryOk p ⟨d, .answer c r, d'⟩) :
    Delivered d' (traffic p g ⟨d, .answer c r, d'⟩) := by
  have hchannel : d₁.channel = d.channel := (replyStep_effect _ hrun).1
  have hsame : ∀ c', Unread (d.channel c') (d'.channel c') := by
    intro c'
    rw [← hchannel]
    cases good with
    | false =>
      cases hrest
      exact .rfl
    | true => exact accept_unread hcredit _ hrest c'
  refine h.packet (fun c' => ⟨rfl, ?_⟩) (fun _ => hsame) fun pk hpk => ?_
  · cases r with
    | credit n => exact absurd rfl (hcredit n)
    | _ => rfl
  · rw [packet_command (hok.1 pk hpk)]
    exact h.congr hsame

theorem delivered_credit {stat : Nat} {n : UInt16} {d₁ : Device} {good : Bool}
    (h : Delivered d g) (hrun : replyStep p d = .ok (.inr (stat, d₁)))
    (hgood : accepted 3 stat d₁ = .ok good)
    (hrest : (if good = false then Except.ok d₁ else Request.accept p c d₁ (.credit n)) = .ok d')
    (hok : DeliveryOk p ⟨d, .answer c (.credit n), d'⟩) :
    Delivered d' (traffic p g ⟨d, .answer c (.credit n), d'⟩) := by
  obtain ⟨hcommand, hreply⟩ := hok
  dsimp only at hcommand hreply
  obtain ⟨hroom, pk, hpk, h83⟩ := hreply n rfl
  have hcmd := hcommand pk hpk
  obtain ⟨hchannel, herror, hread⟩ := replyStep_effect _ hrun
  have hstat : stat = 0 := by
    by_contra hne
    exact absurd (h83.symm.trans (herror hne pk hpk).2) (by decide)
  obtain ⟨pk', hpk', h80, hv⟩ := hread hstat
  cases hpk.symm.trans hpk'
  subst hstat
  have hiff : good = true ↔ IsReply 3 pk := accepted_gives hv hcmd h80 _ hgood
  have hissue (c' : Nat) : issue p c' ⟨d, .answer c (.credit n), d'⟩
      = if c = c' ∧ good = true then n.toNat else 0 := by
    have hrefusal : ¬ IsRefusal pk ↔ good = true := by
      have hcode : (0x83 : UInt8) = 0x80 ||| 3 := rfl
      rw [hiff, IsRefusal, IsReply, h83, ← hcode]
      simp [hcmd]
    have hmem : (∀ pk ∈ replyPacket p (flat d.input), ¬ IsRefusal pk) ↔ good = true := by
      rw [hpk, ← hrefusal]
      simp
    show (if c = c' ∧ ∀ pk ∈ replyPacket p (flat d.input), ¬ IsRefusal pk then _ else _) = _
    simp only [hmem]
  have hnoted : traffic p g ⟨d, .answer c (.credit n), d'⟩ = { g with
      issued := fun c' => g.issued c' + if c = c' ∧ good = true then n.toNat else 0 } := by
    have hcame : (match Act.packet p d (.answer c (.credit n)) with
      | none => g
      | some pk => g.packet pk) = g := by
      show (match replyPacket p (flat d.input) with
        | none => g
        | some pk => g.packet pk) = g
      rw [hpk]
      exact packet_command hcmd
    rw [traffic]
    simp only [hissue, hcame]
    simp [handed]
  rw [hnoted]
  intro c'
  obtain ⟨hbytes, hleft, hfront⟩ := h c'
  cases good with
  | false =>
    cases hrest
    rw [hchannel]
    refine ⟨hbytes, ?_, hfront⟩
    simpa using hleft
  | true =>
    cases hrest
    by_cases hc : c' = c
    · subst hc
      have hset : (creditAccepted c' n d₁).channel c' = { d.channel c' with
          p2hcredit := (d.channel c').p2hcredit + n } := by
        rw [creditAccepted, hchannel]
        exact Function.update_self ..
      rw [hset]
      refine ⟨hbytes, ?_, hfront⟩
      have hsum : ((d.channel c').p2hcredit + n).toNat
          = (d.channel c').p2hcredit.toNat + n.toNat := by
        rw [UInt16.toNat_add]
        exact Nat.mod_eq_of_lt hroom
      show ((d.channel c').p2hcredit + n).toNat + g.arrived c' = g.issued c' + _
      rw [hsum, if_pos ⟨rfl, rfl⟩]
      lia
    · have hset : (creditAccepted c n d₁).channel c' = d.channel c' := by
        rw [← hchannel]
        exact Function.update_of_ne hc _ _
      rw [hset]
      refine ⟨hbytes, ?_, hfront⟩
      show _ = g.issued c' + _
      rw [if_neg fun hcon => hc hcon.1.symm]
      exact hleft

/-! ### Handing out -/

theorem delivered_cut (h : Delivered d g) (c size : Nat) :
    Delivered (cutBuf c size d).2 (traffic p g ⟨d, .cut c size, (cutBuf c size d).2⟩) := by
  intro c'
  obtain ⟨hbytes, hleft, hfront⟩ := h c'
  show (g.returned c' ++ (if c = c' then (cutBuf c size d).1 else [])) ++ _ = g.received c'
    ∧ _ + g.arrived c' = g.issued c' + 0 ∧ _
  by_cases hc : c' = c
  · subst hc
    refine ⟨?_, ?_, ?_⟩
    · rw [if_pos rfl, List.append_assoc, cutBuf_pending, hbytes]
    · rw [Nat.add_zero, ← hleft, cutBuf]
      split
      · simp [Device.setChannel]
      · simp [Device.setChannel]
    · rw [cutBuf]
      split
      · simp only [Device.setChannel, Function.update_self]
        lia
      · simp [Device.setChannel]
  · have hsame : (cutBuf c size d).2.channel c' = d.channel c' := by
      rw [cutBuf]
      split
      · exact Function.update_of_ne hc _ _
      · exact Function.update_of_ne hc _ _
    rw [if_neg fun heq => hc heq.symm, List.append_nil, hsame]
    exact ⟨hbytes, hleft, hfront⟩

/-! ## Runs -/

theorem step_delivered {a : Act} (hstep : Step p a d d') (hok : DeliveryOk p ⟨d, a, d'⟩)
    (h : Delivered d g) : Delivered d' (traffic p g ⟨d, a, d'⟩) := by
  have hsilent (hpk : a.packet p d = none)
      (hquiet : ∀ c, handed c ⟨d, a, d'⟩ = [] ∧ issue p c ⟨d, a, d'⟩ = 0)
      (hsame : ∀ c, Unread (d.channel c) (d'.channel c)) :
      Delivered d' (traffic p g ⟨d, a, d'⟩) :=
    h.packet hquiet (fun _ => hsame) fun pk hcon => absurd (hpk.symm.trans hcon) nofun
  cases hstep with
  | written d l =>
    refine hsilent rfl (fun _ => ⟨rfl, rfl⟩) fun c => ?_
    rw [vfWrite_channel]
    exact .rfl
  | command hrun => exact delivered_command h hrun hok
  | reply hrun => exact delivered_reply h hrun hok
  | @answer c stat r d d₁ d' good hrun hgood hrest =>
    cases r with
    | credit n => exact delivered_credit h hrun hgood hrest hok
    | _ => exact delivered_answer h hrun hrest nofun hok
  | data hrun => exact delivered_data h hrun hok
  | last hrun => exact delivered_last h hrun hok
  | @sent c d l hcredit =>
    refine hsilent rfl (fun _ => ⟨rfl, rfl⟩) fun c' => ?_
    obtain ⟨-, hchannel⟩ | ⟨-, hchannel⟩ := sendData_cases c l d
    · rw [hchannel]
      exact .rfl
    · rw [hchannel]
      exact unread_setChannel (.rfl : Unread (d.channel c) { d.channel c with
        h2pcredit := (d.channel c).h2pcredit - 1 }) c'
  | cut d c size => exact delivered_cut h c size
  | emptied d c =>
    refine hsilent rfl (fun _ => ⟨rfl, rfl⟩) (unread_setChannel ?_)
    have hindex := (h c).2.2 hok
    have hrcnt : (d.channel c).rcnt = 0 := hok
    exact .of_bare (by simp [Channel.bare, hindex, hrcnt]) hok

end Steps

theorem handed_of_quiet {p : Proto} {d d' : Device} (h : Reaches (Quiet p) d d') :
    ∃ ts, Run (Step p) d ts d' ∧ ∀ c, ts.flatMap (handed c) = [] := by
  obtain ⟨ts, hrun⟩ := h
  refine ⟨ts, hrun.mono fun _ _ _ hstep => hstep.1, fun c => List.flatMap_eq_nil_iff.mpr ?_⟩
  rintro ⟨s, a, t⟩ hx
  have hcut := (hrun.of_mem hx).2
  cases a with
  | cut c' size => exact absurd rfl (hcut c' size)
  | _ => rfl

theorem handed_of_read {p : Proto} {c length : Nat} (d : Device) :
    Gives (fun x => ∃ ts, Run (Step p) d ts x.2
        ∧ ∀ c', ts.flatMap (handed c') = if c = c' then x.1.2 else [])
      (channelRead p c length d) := by
  refine (channelRead_reaches length).mono ?_
  rintro ⟨⟨ok, l⟩, d'⟩ (⟨h, hl⟩ | ⟨s, h, hd', hl⟩)
  · obtain ⟨ts, hrun, hnone⟩ := handed_of_quiet h
    refine ⟨ts, hrun, fun c' => ?_⟩
    obtain rfl : l = [] := hl
    rw [hnone c', ite_self]
  · obtain ⟨ts, hrun, hnone⟩ := handed_of_quiet h
    obtain rfl : d' = (cutBuf c length s).2 := hd'
    refine ⟨ts ++ [⟨s, .cut c length, _⟩], hrun.append (.cons (.cut s c length) (.nil _)), ?_⟩
    intro c'
    rw [List.flatMap_append, hnone c', hl]
    exact List.append_nil _

/-- The payload for channel `c` that an act takes off the wire. -/
def came (p : Proto) (c : Nat) (x : Taken Device Act) : List UInt8 :=
  match x.act.packet p x.before with
  | none => []
  | some pk => if IsData pk c then pk.drop headerSize else []

theorem traffic_bytes (p : Proto) (c : Nat) (g : Traffic) (ts : List (Taken Device Act)) :
    (ts.foldl (traffic p) g).returned c = g.returned c ++ ts.flatMap (handed c)
      ∧ (ts.foldl (traffic p) g).received c = g.received c ++ ts.flatMap (came p c) := by
  induction ts generalizing g with
  | nil => exact ⟨(List.append_nil _).symm, (List.append_nil _).symm⟩
  | cons x ts ih =>
    obtain ⟨hreturned, hreceived⟩ := ih (g := traffic p g x)
    have hone : (traffic p g x).returned c = g.returned c ++ handed c x
        ∧ (traffic p g x).received c = g.received c ++ came p c x := by
      rw [traffic, came]
      cases x.act.packet p x.before with
      | none => exact ⟨rfl, (List.append_nil _).symm⟩
      | some pk => exact ⟨rfl, rfl⟩
    rw [List.foldl_cons, hreturned, hreceived, hone.1, hone.2, List.flatMap_cons,
      List.flatMap_cons, List.append_assoc, List.append_assoc]
    exact ⟨rfl, rfl⟩

def Traffic.start (n : Nat) : Traffic := ⟨fun _ => [], fun _ => [], fun _ => n, fun _ => 0⟩

theorem delivered_fresh (credit : UInt16) (es : List (Event UInt8)) :
    Delivered (freshDevice credit es) (.start credit.toNat) :=
  fun _ => ⟨rfl, rfl, fun _ => rfl⟩

theorem not_delivered {p : Proto} {n : Nat} {d' : Device} {ts : List (Taken Device Act)} (c : Nat)
    (h : ts.flatMap (handed c) ++ (d'.channel c).pending ≠ ts.flatMap (came p c)) :
    ¬ Delivered d' (ts.foldl (traffic p) (.start n)) := by
  intro hcon
  obtain ⟨hreturned, hreceived⟩ := traffic_bytes p c (.start n) ts
  have hbytes := (hcon c).1
  rw [hreturned, hreceived] at hbytes
  exact h hbytes

theorem came_eq {p : Proto} {c : Nat} {a : Act} {d d' : Device} (pk : List UInt8)
    (hpk : a.packet p d = some pk) :
    came p c ⟨d, a, d'⟩ = if IsData pk c then pk.drop headerSize else [] := by
  rw [came]
  dsimp only
  rw [hpk]

end Hplip.Hpmud
