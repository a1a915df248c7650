import Mathlib
import Hplip.Hpmud.Effects

/-!
# Credit of the host

A channel may send as many data packets as the peripheral has granted. The grants come in
packets that any function of any channel may meet; the code adds them to a counter of 16 bits.
When does the counter say what is granted and not used up?
-/

namespace Hplip.Hpmud

open Pieces Checked Runs

/-! ## The books -/

def Act.packet (p : Proto) (d : Device) : Act → Option (List UInt8)
  | .command _ => Hpmud.packet (flat d.input)
  | .reply _ => replyPacket p (flat d.input)
  | .answer _ _ => replyPacket p (flat d.input)
  | .data _ => dataPacket (flat d.input)
  | .last _ => dataPacket (flat d.input)
  | _ => none

def Act.channel : Act → Nat
  | .written _ => 0
  | .command c => c
  | .reply c => c
  | .answer c _ => c
  | .data c => c
  | .last c => c
  | .sent c _ => c
  | .cut c _ => c
  | .emptied c => c

def IsReply (code : UInt8) (pk : List UInt8) : Prop :=
  IsCommand pk ∧ pkByte pk 6 = 0x80 ||| code ∧ pkByte pk 7 = 0

instance (code : UInt8) (pk : List UInt8) : Decidable (IsReply code pk) :=
  inferInstanceAs (Decidable (_ ∧ _ ∧ _))

/-- The channel that the reply to a credit request is for: MLC does not name it. -/
def grantee (p : Proto) (c₀ : Nat) (pk : List UInt8) : Nat :=
  match p with
  | .mlc => c₀
  | .dot4 => (pkByte pk 8).toNat

/-- The credit that a packet grants to channel `c`: a credit command, the reply to a credit
request, the piggy-back byte of a data packet. -/
def grantOf (p : Proto) (c₀ : Nat) (pk : List UInt8) (c : Nat) : Nat :=
  if IsCommand pk then
    if pkByte pk 6 = 3 then (if c = (pkByte pk 7).toNat then pkWord pk 9 else 0)
    else if IsReply 4 pk ∧ c = grantee p c₀ pk then pkWord pk (grantOffset p)
    else 0
  else if pkByte pk 0 = pkByte pk 1 ∧ c = (pkByte pk 0).toNat then (pkByte pk 4).toNat
  else 0

def openOffset : Proto → Nat
  | .mlc => 8
  | .dot4 => 16

/-- What was granted to the channels and what was used since they were opened. -/
structure Account where
  granted : Nat → Nat
  used : Nat → Nat

def Account.opened (g : Account) (c n : Nat) : Account :=
  ⟨Function.update g.granted c n, Function.update g.used c 0⟩

def Account.grant (g : Account) (f : Nat → Nat) : Account :=
  { g with granted := fun c => g.granted c + f c }

def Account.use (g : Account) (c : Nat) : Account :=
  { g with used := Function.update g.used c (g.used c + 1) }

def account (p : Proto) (g : Account) (x : Taken Device Act) : Account :=
  match x.act with
  | .sent c l => if (sendData c l x.before).1 = true then g.use c else g
  | a =>
    match a.packet p x.before with
    | none => g
    | some pk =>
      if a = .answer a.channel .opening ∧ IsReply 1 pk then
        g.opened a.channel (pkWord pk (openOffset p))
      else g.grant (grantOf p a.channel pk)

/-- The counters say what is granted and not used up. -/
def Conserved (d : Device) (g : Account) : Prop :=
  ∀ c, (d.channel c).h2pcredit.toNat + g.used c = g.granted c

/-! ## Acts that keep the books -/

def Room (d : Device) (f : Nat → Nat) : Prop :=
  ∀ c, (d.channel c).h2pcredit.toNat + f c < 65536

/-- A packet that is executed: a data packet with credit is not rejected, and there is no late
reply with credit. -/
def ExecCredit (p : Proto) (d : Device) (pk : List UInt8) : Prop :=
  (IsReply 4 pk → pkWord pk (grantOffset p) = 0)
    ∧ (¬ IsCommand pk → pkByte pk 0 = pkByte pk 1 → pkByte pk 4 ≠ 0 →
        Fits pk (d.channel (pkByte pk 0).toNat))

/-- The packet that ends the wait of channel `c` for the reply to `r`: no data packet, and a
credit that it brings is for this channel, which asked for it. -/
def AnswerCredit (p : Proto) (c : Nat) (r : Request) (pk : List UInt8) : Prop :=
  IsCommand pk ∧ (IsReply 4 pk → pkWord pk (grantOffset p) ≠ 0 →
    r = .creditRequest ∧ grantee p c pk = c)

/-- The packet that was waited for: its credit is taken with the header. -/
def OwnCredit (c : Nat) (d : Device) : Prop :=
  let head := (pullFlat (flat d.input) headerSize).1
  head.length = headerSize → lengthOf head ≤ headerSize + bufferSize →
    pkByte head 0 = (d.channel c).sockid ∨ pkByte head 1 = (d.channel c).sockid →
      pkByte head 4 ≠ 0 → pkByte head 0 = pkByte head 1 ∧ dataPacket (flat d.input) ≠ none

/-- The socket of a channel is its number: 1284.4 peripherals hand out the sockets. -/
def Named (d : Device) (c : Nat) : Prop := (d.channel c).sockid.toNat = c

/-- The acts that keep books and counters together. -/
def CreditOk (p : Proto) (x : Taken Device Act) : Prop :=
  let d := x.before
  (∀ pk, x.act.packet p d = some pk → Room d (grantOf p x.act.channel pk))
    ∧ match x.act with
      | .command c => Named d c
          ∧ ∀ pk, Hpmud.packet (flat d.input) = some pk → ExecCredit p d pk
      | .reply c => Named d c ∧ ∀ pk, replyPacket p (flat d.input) = some pk → ExecCredit p d pk
      | .answer c r => Named d c
          ∧ ∀ pk, replyPacket p (flat d.input) = some pk → AnswerCredit p c r pk
      | .data c => Named d c ∧ 0 < c ∧ CutOk c d
          ∧ ∀ pk, dataPacket (flat d.input) = some pk → ExecCredit p d pk
      | .last c => Named d c ∧ 0 < c ∧ CutOk c d ∧ OwnCredit c d
          ∧ ∀ pk, dataPacket (flat d.input) = some pk → pkByte pk 0 ≠ (d.channel c).sockid →
            ExecCredit p d pk
      | .sent c _ => Named d c
      | _ => True

/-! ## One act -/

section Steps

variable {p : Proto} {d d' : Device} {g : Account} {pk : List UInt8} {c : Nat}

theorem pkWord_lt (pk : List UInt8) (i : Nat) : pkWord pk i < 65536 := by
  have h1 := (byteAt (fun i => pk[i]?) i).toNat_lt
  have h2 := (byteAt (fun i => pk[i]?) (i + 1)).toNat_lt
  rw [pkWord, wordAt]
  lia

theorem add_toNat {a : UInt16} {n : Nat} (h : a.toNat + n < 65536) :
    (a + n.toUInt16).toNat = a.toNat + n := by
  rw [UInt16.toNat_add, Nat.toUInt16, UInt16.toNat_ofNat']
  lia

theorem add_byte_toNat {a : UInt16} {b : UInt8} (h : a.toNat + b.toNat < 65536) :
    (a + b.toUInt16).toNat = a.toNat + b.toNat := by
  rw [UInt16.toNat_add, UInt8.toNat_toUInt16]
  lia

theorem grantOf_command (hcmd : IsCommand pk) (h3 : pkByte pk 6 = 3) (c₀ c : Nat) :
    grantOf p c₀ pk c = if c = (pkByte pk 7).toNat then pkWord pk 9 else 0 := by
  rw [grantOf, if_pos hcmd, if_pos h3]

theorem grantOf_data (hdata : ¬ IsCommand pk) (c₀ c : Nat) :
    grantOf p c₀ pk c = if pkByte pk 0 = pkByte pk 1 ∧ c = (pkByte pk 0).toNat then
      (pkByte pk 4).toNat else 0 := by
  rw [grantOf, if_neg hdata]

theorem grantOf_none (hcmd : IsCommand pk) (h3 : pkByte pk 6 ≠ 3)
    (h4 : IsReply 4 pk → pkWord pk (grantOffset p) = 0) (c₀ c : Nat) : grantOf p c₀ pk c = 0 := by
  rw [grantOf, if_pos hcmd, if_neg h3]
  by_cases h : IsReply 4 pk ∧ c = grantee p c₀ pk
  · rw [if_pos h, h4 h.1]
  · rw [if_neg h]

theorem executed_credit {c₀ : Nat} (hroom : Room d (grantOf p c₀ pk)) (hok : ExecCredit p d pk)
    (c : Nat) : (executed pk d.channel c).h2pcredit.toNat
      = (d.channel c).h2pcredit.toNat + grantOf p c₀ pk c := by
  have hc := hroom c
  rw [executed]
  by_cases hcmd : IsCommand pk
  · rw [if_pos hcmd]
    by_cases h3 : pkByte pk 6 = 3
    · rw [if_pos h3]
      rw [grantOf_command hcmd h3] at hc ⊢
      by_cases heq : c = (pkByte pk 7).toNat
      · rw [if_pos heq] at hc ⊢
        rw [← heq, Function.update_self]
        exact add_toNat hc
      · rw [if_neg heq, Function.update_of_ne heq, Nat.add_zero]
    · rw [if_neg h3, grantOf_none hcmd h3 hok.1, Nat.add_zero]
  · rw [if_neg hcmd]
    rw [grantOf_data hcmd] at hc ⊢
    by_cases hstore : pkByte pk 0 = pkByte pk 1 ∧ Fits pk (d.channel (pkByte pk 0).toNat)
    · rw [if_pos hstore]
      by_cases heq : c = (pkByte pk 0).toNat
      · rw [if_pos ⟨hstore.1, heq⟩] at hc ⊢
        rw [← heq, Function.update_self]
        exact add_byte_toNat hc
      · rw [if_neg fun h => heq h.2, Function.update_of_ne heq, Nat.add_zero]
    · rw [if_neg hstore]
      by_cases heq : pkByte pk 0 = pkByte pk 1 ∧ c = (pkByte pk 0).toNat
      · have hzero : pkByte pk 4 = 0 := by
          by_contra hne
          exact hstore ⟨heq.1, hok.2 hcmd heq.1 hne⟩
        rw [if_pos heq, hzero]
        rfl
      · rw [if_neg heq, Nat.add_zero]

theorem Conserved.grant (h : Conserved d g) {f : Nat → Nat}
    (hf : ∀ c, (d'.channel c).h2pcredit.toNat = (d.channel c).h2pcredit.toNat + f c) :
    Conserved d' (g.grant f) := by
  intro c
  have := h c
  rw [hf c]
  show _ + g.used c = g.granted c + f c
  lia

theorem Conserved.congr (h : Conserved d g)
    (hsame : ∀ c, (d'.channel c).h2pcredit = (d.channel c).h2pcredit) : Conserved d' g := by
  intro c
  rw [hsame c]
  exact h c

theorem h2pcredit_of_bare {ch ch' : Channel} (h : ch'.bare = ch.bare) :
    ch'.h2pcredit = ch.h2pcredit := by
  rw [bare_eq h]

theorem account_packet {a : Act} (hsent : ∀ c l, a ≠ .sent c l)
    (hopen : ∀ pk, a.packet p d = some pk → ¬ (a = .answer a.channel .opening ∧ IsReply 1 pk)) :
    account p g ⟨d, a, d'⟩ = match a.packet p d with
      | none => g
      | some pk => g.grant (grantOf p a.channel pk) := by
  have haccount : account p g ⟨d, a, d'⟩ = match a.packet p d with
      | none => g
      | some pk =>
        if a = .answer a.channel .opening ∧ IsReply 1 pk then
          g.opened a.channel (pkWord pk (openOffset p))
        else g.grant (grantOf p a.channel pk) := by
    cases a with
    | sent c l => exact absurd rfl (hsent c l)
    | _ => rfl
  rw [haccount]
  cases hpk : a.packet p d with
  | none => rfl
  | some pk => exact if_neg (hopen pk hpk)

theorem Conserved.packet (h : Conserved d g) {a : Act} (hsent : ∀ c l, a ≠ .sent c l)
    (hopen : ∀ pk, a.packet p d = some pk → ¬ (a = .answer a.channel .opening ∧ IsReply 1 pk))
    (hnone : a.packet p d = none → ∀ c, (d'.channel c).h2pcredit = (d.channel c).h2pcredit)
    (hsome : ∀ pk, a.packet p d = some pk → ∀ c, (d'.channel c).h2pcredit.toNat
      = (d.channel c).h2pcredit.toNat + grantOf p a.channel pk c) :
    Conserved d' (account p g ⟨d, a, d'⟩) := by
  rw [account_packet hsent hopen]
  cases hpk : a.packet p d with
  | none => exact h.congr (hnone hpk)
  | some pk => exact h.grant (hsome pk hpk)

theorem Conserved.silent (h : Conserved d g) {a : Act} (hsent : ∀ c l, a ≠ .sent c l)
    (hpk : a.packet p d = none)
    (hsame : ∀ c, (d'.channel c).h2pcredit = (d.channel c).h2pcredit) :
    Conserved d' (account p g ⟨d, a, d'⟩) := by
  refine h.packet hsent (fun pk h => ?_) (fun _ => hsame) fun pk h => ?_
  · rw [hpk] at h
    cases h
  · rw [hpk] at h
    cases h

theorem conserved_command {stat : Nat} (h : Conserved d g) (hrun : reverseCmd p d = .ok (stat, d'))
    (hok : CreditOk p ⟨d, .command c, d'⟩) :
    Conserved d' (account p g ⟨d, .command c, d'⟩) := by
  have heff := reverseCmd_effect _ hrun
  refine h.packet nofun (fun pk _ => nofun) (fun hnone c' => ?_) fun pk hpk c' => ?_
  · have hnone' : packet (flat d.input) = none := hnone
    rw [heff, hnone']
    rfl
  · have hpk' : packet (flat d.input) = some pk := hpk
    rw [heff, hpk']
    exact executed_credit (hok.1 pk hpk) (hok.2.2 pk hpk) c'

theorem conserved_reply (h : Conserved d g) (hrun : replyStep p d = .ok (.inl d'))
    (hok : CreditOk p ⟨d, .reply c, d'⟩) :
    Conserved d' (account p g ⟨d, .reply c, d'⟩) := by
  obtain ⟨pk, hpk, -, hchannel⟩ := replyStep_effect _ hrun
  refine h.packet nofun (fun pk _ => nofun) (fun hnone c' => ?_) fun pk' hpk' c' => ?_
  · exact absurd (hpk.symm.trans hnone) (Option.some_ne_none pk)
  · cases hpk.symm.trans hpk'
    rw [hchannel]
    exact executed_credit (hok.1 pk hpk) (hok.2.2 pk hpk) c'

theorem conserved_data (h : Conserved d g) (hrun : dataStep p c d = .ok (.inl d'))
    (hok : CreditOk p ⟨d, .data c, d'⟩) :
    Conserved d' (account p g ⟨d, .data c, d'⟩) := by
  obtain ⟨hroom, hsock, hpos, hcut, hexec⟩ := hok
  obtain ⟨-, _, heq, -⟩ | ⟨-, -, pk, hpk, -, halike⟩ | ⟨-, -, _, heq, -⟩ :=
    dataStep_effect hcut hsock _ hrun
  · cases heq
  · refine h.packet nofun (fun pk _ => nofun) (fun hnone c' => ?_) fun pk' hpk' c' => ?_
    · exact absurd (hpk.symm.trans hnone) (Option.some_ne_none pk)
    · cases hpk.symm.trans hpk'
      rw [h2pcredit_of_bare (halike c').1]
      exact executed_credit (hroom pk hpk) (hexec pk hpk) c'
  · cases heq

theorem grantOf_own {head : List UInt8} (hpos : 0 < c) (hsock : (d.channel c).sockid.toNat = c)
    (hown : pkByte head 0 = (d.channel c).sockid ∨ pkByte head 1 = (d.channel c).sockid)
    (hb : pkByte head 4 ≠ 0 → pkByte head 0 = pkByte head 1)
    (hget : ∀ i < headerSize, pkByte pk i = pkByte head i) (c₀ c' : Nat) :
    grantOf p c₀ pk c' = if c' = c then (pkByte head 4).toNat else 0 := by
  have hne : (d.channel c).sockid ≠ 0 := by
    intro h
    rw [h] at hsock
    exact absurd hsock (Nat.ne_of_lt hpos)
  have hdata : ¬ IsCommand pk := by
    rw [IsCommand, hget 0 (by decide), hget 1 (by decide)]
    rintro ⟨h0, h1⟩
    rcases hown with h | h
    · exact hne (h.symm.trans h0)
    · exact hne (h.symm.trans h1)
  rw [grantOf_data hdata, hget 0 (by decide), hget 1 (by decide), hget 4 (by decide)]
  by_cases h4 : pkByte head 4 = 0
  · rw [h4]
    simp
  · have heq := hb h4
    have h0 : (pkByte head 0).toNat = c := by
      rcases hown with h | h
      · rw [h, hsock]
      · rw [heq, h, hsock]
    rw [h0]
    by_cases hc : c' = c
    · rw [if_pos ⟨heq, hc⟩, if_pos hc]
    · rw [if_neg fun h => hc h.2, if_neg hc]

theorem grantOf_rejected (hdata : ¬ IsCommand pk) (hok : ExecCredit p d pk)
    (hfits : pkByte pk 0 = pkByte pk 1 → ¬ Fits pk (d.channel (pkByte pk 0).toNat)) (c₀ c : Nat) :
    grantOf p c₀ pk c = 0 := by
  rw [grantOf_data hdata]
  by_cases heq : pkByte pk 0 = pkByte pk 1 ∧ c = (pkByte pk 0).toNat
  · have hzero : pkByte pk 4 = 0 := by
      by_contra hne
      exact hfits heq.1 (hok.2 hdata heq.1 hne)
    rw [if_pos heq, hzero]
    rfl
  · exact if_neg heq

theorem dataRead_h2pcredit (n c' : Nat) :
    ((dataRead c n d).channel c').h2pcredit = (d.channel c').h2pcredit := by
  by_cases heq : c' = c
  · subst heq
    simp [dataRead, Device.setChannel]
  · simp [dataRead, Device.setChannel, Function.update_of_ne heq]

theorem conserved_last {n : Nat} (h : Conserved d g) (hrun : dataStep p c d = .ok (.inr (n, d')))
    (hok : CreditOk p ⟨d, .last c, dataRead c n d'⟩) :
    Conserved (dataRead c n d') (account p g ⟨d, .last c, dataRead c n d'⟩) := by
  obtain ⟨hroom, hsock, hpos, hcut, hown, hexec⟩ := hok
  dsimp only at hpos hsock hcut hown hexec hroom
  have heff := dataStep_effect hcut hsock _ hrun
  unfold DataEffect at heff
  dsimp only at heff
  have hhead : ∀ pk, dataPacket (flat d.input) = some pk → ∀ i < headerSize,
      pkByte pk i = pkByte (pullFlat (flat d.input) headerSize).1 i := by
    intro pk hpk
    obtain ⟨⟨hlen, -⟩, hwhole⟩ := Option.ite_none_right_eq_some.mp hpk
    exact (whole_of_wholePacket hlen hwhole).2.2
  obtain ⟨hshort, x, heq, halike⟩ | ⟨hlen, hnot, hbare, hrejected⟩ | ⟨hlen, ⟨hmine, hmax⟩, y, heq, hread⟩ :=
    heff
  · obtain ⟨-, rfl⟩ := Prod.mk.inj (Sum.inr.inj heq)
    have hnone : dataPacket (flat d.input) = none := if_neg fun h => hshort h.1
    exact h.silent nofun hnone fun c' =>
      (dataRead_h2pcredit n c').trans (h2pcredit_of_bare (halike c').1)
  · have hsame (c' : Nat) : ((dataRead c n d').channel c').h2pcredit = (d.channel c').h2pcredit :=
      (dataRead_h2pcredit n c').trans (h2pcredit_of_bare (hbare c'))
    refine h.packet nofun (fun pk _ => nofun) (fun _ => hsame) fun pk hpk c' => ?_
    obtain ⟨hdata, hfits⟩ := hrejected pk hpk
    have h0 : pkByte pk 0 ≠ (d.channel c).sockid := by
      intro h0
      refine hnot ⟨.inl (hhead pk hpk 0 (by decide) ▸ h0), ?_⟩
      exact (Option.ite_none_right_eq_some.mp hpk).1.2
    rw [hsame c', grantOf_rejected hdata (hexec pk hpk h0) hfits, Nat.add_zero]
  · have hy : y = (n, d') := (Sum.inr.inj heq).symm
    subst hy
    obtain ⟨-, b, hchannel⟩ := hread
    have hb := hown hlen hmax hmine
    have hcredit (c' : Nat) : ((dataRead c n d').channel c').h2pcredit
        = (d.channel c').h2pcredit + (if c' = c then
          pkByte (pullFlat (flat d.input) headerSize).1 4 else 0).toUInt16 := by
      rw [dataRead_h2pcredit, hchannel]
      by_cases hc : c' = c
      · rw [hc, Function.update_self, if_pos rfl]
      · rw [Function.update_of_ne hc, if_neg hc]
        simp
    refine h.packet nofun (fun pk _ => nofun) (fun hnone c' => ?_) fun pk hpk c' => ?_
    · have hzero : pkByte (pullFlat (flat d.input) headerSize).1 4 = 0 := by
        by_contra hne
        exact (hb hne).2 hnone
      rw [hcredit, hzero]
      simp
    · have hgrant := grantOf_own (p := p) (d := d) hpos hsock hmine (fun hne => (hb hne).1)
        (hhead pk hpk) c
      have hsum := hroom pk hpk c'
      have hgrant' : grantOf p (Act.last c).channel pk c' = _ := hgrant c'
      rw [hgrant'] at hsum ⊢
      rw [hcredit]
      by_cases hc : c' = c
      · rw [if_pos hc] at hsum ⊢
        rw [if_pos hc]
        exact add_byte_toNat hsum
      · rw [if_neg hc, if_neg hc]
        simp

/-! ### Replies -/

theorem replyWord_gives (hv : d.view .own = fun i => pk[i]?) (i : Nat) :
    Gives (fun n => n = pkWord pk i) (replyWord d i) :=
  Gives.require fun hgot => Gives.pure (pkWord_of_view hv (lt_of_got hv hgot.2))

theorem accepted_gives {code : UInt8} (hv : d.view .own = fun i => pk[i]?) (hcmd : IsCommand pk)
    (h80 : pkByte pk 6 &&& 0x80 ≠ 0) :
    Gives (fun good => good = true ↔ IsReply code pk) (accepted code 0 d) := by
  have hlen : 6 < pk.length := by
    by_contra hcon
    rw [pkByte, byteAt, List.getElem?_eq_none (by omega)] at h80
    exact h80 rfl
  have h6 : d.buf 6 = pkByte pk 6 := pkByte_of_view hv hlen
  rw [accepted, h6]
  refine Gives.ite (fun h => absurd rfl h) fun _ => Gives.ite (fun hne => Gives.pure ?_) fun heq => ?_
  · exact iff_of_false (by rintro ⟨⟩) fun h => hne h.2.1
  · refine Gives.require fun hgot => Gives.pure ?_
    have h7 : d.buf 7 = pkByte pk 7 := pkByte_of_view hv (lt_of_got hv hgot)
    rw [h7, decide_eq_true_iff]
    exact ⟨fun h => ⟨hcmd, not_not.mp heq, h⟩, fun h => h.2.2⟩

theorem h2pcredit_setChannel (ch : Channel) (c c' : Nat) : ((d.setChannel c ch).channel c').h2pcredit
    = if c' = c then ch.h2pcredit else (d.channel c').h2pcredit := by
  show (Function.update d.channel c ch c').h2pcredit = _
  by_cases h : c' = c
  · rw [if_pos h, h, Function.update_self]
  · rw [if_neg h, Function.update_of_ne h]

theorem openAccepted_gives (hv : d.view .own = fun i => pk[i]?) :
    Gives (fun d' => ∀ c', (d'.channel c').h2pcredit
        = if c' = c then (pkWord pk (openOffset p)).toUInt16 else (d.channel c').h2pcredit)
      (openAccepted p c d) := by
  cases p with
  | mlc =>
    refine Gives.bind (replyWord_gives hv 8) fun n hn => Gives.pure fun c' => ?_
    rw [h2pcredit_setChannel, hn]
    rfl
  | dot4 =>
    refine Gives.bind (replyWord_gives hv 10) fun _ _ => Gives.bind (replyWord_gives hv 12) fun _ _ => ?_
    refine Gives.bind (replyWord_gives hv 16) fun n hn => Gives.pure fun c' => ?_
    rw [h2pcredit_setChannel, hn]
    rfl

theorem creditRequestAccepted_gives (hv : d.view .own = fun i => pk[i]?) :
    Gives (fun d' => ∀ c', (d'.channel c').h2pcredit = (d.channel c').h2pcredit
        + (if c' = c then pkWord pk (grantOffset p) else 0).toUInt16)
      (creditRequestAccepted p c d) := by
  refine Gives.bind (replyWord_gives hv _) fun n hn => Gives.pure fun c' => ?_
  rw [h2pcredit_setChannel, hn]
  by_cases h : c' = c
  · rw [if_pos h, if_pos h, h]
  · rw [if_neg h, if_neg h]
    simp

theorem accept_gives {r : Request} (hopen : r ≠ .opening) (hask : r ≠ .creditRequest) :
    Gives (fun d' => ∀ c', (d'.channel c').h2pcredit = (d.channel c').h2pcredit)
      (r.accept p c d) := by
  have hset (ch : Channel) (h : ch.h2pcredit = (d.channel c).h2pcredit) (c' : Nat) :
      ((d.setChannel c ch).channel c').h2pcredit = (d.channel c').h2pcredit := by
    rw [h2pcredit_setChannel]
    by_cases hc : c' = c
    · rw [if_pos hc, hc, h]
    · rw [if_neg hc]
  cases r with
  | opening => exact absurd rfl hopen
  | closing => exact Gives.ok fun _ => rfl
  | credit n => exact Gives.ok (hset _ rfl)
  | creditRequest => exact absurd rfl hask
  | socket =>
    cases p with
    | mlc =>
      refine Gives.bind (R := fun _ => True) (fun _ _ => trivial) fun _ _ => ?_
      refine Gives.bind (R := fun _ => True) (fun _ _ => trivial) fun _ _ => ?_
      exact Gives.pure (hset _ rfl)
    | dot4 => exact Gives.require fun _ => Gives.pure (hset _ rfl)

theorem isReply_code {r : Request} (h : IsReply (r.code p) pk) :
    (IsReply 1 pk → r = .opening) ∧ (IsReply 4 pk → r = .creditRequest) := by
  have hinj : ∀ code : UInt8, IsReply code pk → 0x80 ||| r.code p = 0x80 ||| code :=
    fun code hcode => h.2.1.symm.trans hcode.2.1
  have hcode : r.code p = 1 ∧ r = .opening ∨ r.code p = 2 ∨ r.code p = 3
      ∨ r.code p = 4 ∧ r = .creditRequest ∨ r.code p = 7 ∨ r.code p = 9 := by
    cases r <;> cases p <;> simp [Request.code]
  constructor
  · intro h1
    have hcon := hinj 1 h1
    rcases hcode with h | h | h | h | h | h
    · exact h.2
    · exact absurd (h ▸ hcon) (by decide)
    · exact absurd (h ▸ hcon) (by decide)
    · exact absurd (h.1 ▸ hcon) (by decide)
    · exact absurd (h ▸ hcon) (by decide)
    · exact absurd (h ▸ hcon) (by decide)
  · intro h4
    have hcon := hinj 4 h4
    rcases hcode with h | h | h | h | h | h
    · exact absurd (h.1 ▸ hcon) (by decide)
    · exact absurd (h ▸ hcon) (by decide)
    · exact absurd (h ▸ hcon) (by decide)
    · exact h.2
    · exact absurd (h ▸ hcon) (by decide)
    · exact absurd (h ▸ hcon) (by decide)

theorem conserved_answer_none {r : Request} (h : Conserved d g)
    (hsame : ∀ c', (d'.channel c').h2pcredit = (d.channel c').h2pcredit)
    (hopen : ∀ pk, replyPacket p (flat d.input) = some pk → ¬ (r = .opening ∧ IsReply 1 pk))
    (hgrant : ∀ pk, replyPacket p (flat d.input) = some pk → ∀ c', grantOf p c pk c' = 0) :
    Conserved d' (account p g ⟨d, .answer c r, d'⟩) := by
  refine h.packet nofun (fun pk hpk => ?_) (fun _ => hsame) fun pk hpk c' => ?_
  · rintro ⟨ha, h1⟩
    exact hopen pk hpk ⟨(Act.answer.inj ha).2, h1⟩
  · have hzero : grantOf p (Act.answer c r).channel pk c' = 0 := hgrant pk hpk c'
    rw [hsame, hzero, Nat.add_zero]

theorem conserved_answer_good {r : Request} {d₁ : Device} (h : Conserved d g)
    (hchannel : d₁.channel = d.channel) (hpk : replyPacket p (flat d.input) = some pk)
    (hv : d₁.view .own = fun i => pk[i]?) (hreply : IsReply (r.code p) pk)
    (h3 : pkByte pk 6 ≠ 3) (haccept : r.accept p c d₁ = .ok d')
    (hok : CreditOk p ⟨d, .answer c r, d'⟩) :
    Conserved d' (account p g ⟨d, .answer c r, d'⟩) := by
  obtain ⟨hroom, -, hanswer⟩ := hok
  dsimp only at hroom hanswer
  by_cases hopen : r = .opening
  · subst hopen
    have heff := openAccepted_gives (p := p) (c := c) hv _ haccept
    have haccount : account p g ⟨d, .answer c .opening, d'⟩
        = g.opened c (pkWord pk (openOffset p)) := by
      show (match replyPacket p (flat d.input) with
        | none => g
        | some pk => if _ ∧ IsReply 1 pk then _ else _) = _
      rw [hpk]
      exact if_pos ⟨rfl, hreply⟩
    rw [haccount]
    intro c'
    rw [heff c', hchannel]
    by_cases hc : c' = c
    · subst hc
      have hword : (pkWord pk (openOffset p)).toUInt16.toNat = pkWord pk (openOffset p) := by
        rw [Nat.toUInt16, UInt16.toNat_ofNat']
        exact Nat.mod_eq_of_lt (pkWord_lt pk _)
      simp [Account.opened, hword]
    · simpa [Account.opened, hc] using h c'
  · by_cases hask : r = .creditRequest
    · subst hask
      have heff := creditRequestAccepted_gives (p := p) (c := c) hv _ haccept
      have hgrant : ∀ c', grantOf p c pk c' = if c' = c then pkWord pk (grantOffset p) else 0 := by
        intro c'
        rw [grantOf, if_pos hreply.1, if_neg h3]
        by_cases hzero : pkWord pk (grantOffset p) = 0
        · rw [hzero]
          simp
        · rw [((hanswer pk hpk).2 hreply hzero).2]
          by_cases hc : c' = c
          · rw [if_pos ⟨hreply, hc⟩, if_pos hc]
          · rw [if_neg fun h => hc h.2, if_neg hc]
      refine h.packet nofun (fun pk' hpk' => nofun) (fun hnone c' => ?_) fun pk' hpk' c' => ?_
      · exact absurd (hpk.symm.trans hnone) (Option.some_ne_none pk)
      · cases hpk.symm.trans hpk'
        have hsum := hroom pk hpk c'
        have hgrant' : grantOf p (Act.answer c .creditRequest).channel pk c' = _ := hgrant c'
        rw [hgrant'] at hsum ⊢
        rw [heff c', hchannel]
        exact add_toNat hsum
    · have heff := accept_gives (p := p) (c := c) hopen hask _ haccept
      refine conserved_answer_none h (fun c' => ?_) (fun pk' _ hcon => hopen hcon.1) fun pk' hpk' => ?_
      · rw [heff c', hchannel]
      · cases hpk.symm.trans hpk'
        exact grantOf_none hreply.1 h3 (fun h4 => absurd ((isReply_code hreply).2 h4) hask) c

theorem conserved_answer {stat : Nat} {r : Request} {d₁ : Device} {good : Bool}
    (h : Conserved d g) (hrun : replyStep p d = .ok (.inr (stat, d₁)))
    (hgood : accepted (r.code p) stat d₁ = .ok good)
    (hrest : (if good = false then .ok d₁ else r.accept p c d₁) = .ok d')
    (hok : CreditOk p ⟨d, .answer c r, d'⟩) :
    Conserved d' (account p g ⟨d, .answer c r, d'⟩) := by
  obtain ⟨hchannel, herror, hreply⟩ := replyStep_effect _ hrun
  have hsame : d' = d₁ → ∀ c', (d'.channel c').h2pcredit = (d.channel c').h2pcredit := by
    intro heq c'
    rw [heq, hchannel]
  by_cases hstat : stat = 0
  · obtain ⟨pk, hpk, h80, hv⟩ := hreply hstat
    obtain ⟨hcmd, hgrant⟩ := hok.2.2 pk hpk
    subst hstat
    have hiff := accepted_gives hv hcmd h80 _ hgood
    have h3 : pkByte pk 6 ≠ 3 := by
      intro h3
      rw [h3] at h80
      exact h80 rfl
    cases good with
    | true => exact conserved_answer_good h hchannel hpk hv (hiff.mp rfl) h3 hrest hok
    | false =>
      have hnot : ¬ IsReply (r.code p) pk := fun hcon => nomatch hiff.mpr hcon
      refine conserved_answer_none h (hsame (Except.ok.inj hrest).symm) (fun pk' hpk' => ?_)
        fun pk' hpk' => ?_
      · rintro ⟨rfl, h1⟩
        cases hpk.symm.trans hpk'
        exact hnot h1
      · cases hpk.symm.trans hpk'
        refine grantOf_none hcmd h3 (fun h4 => ?_) c
        by_contra hne
        obtain ⟨rfl, -⟩ := hgrant h4 hne
        exact hnot h4
  · have hbad : good = false := by
      rw [accepted, if_pos hstat] at hgood
      exact (Except.ok.inj hgood).symm
    subst hbad
    refine conserved_answer_none h (hsame (Except.ok.inj hrest).symm) (fun pk hpk => ?_)
      fun pk hpk => ?_
    · rintro ⟨-, h1⟩
      exact absurd ((herror hstat pk hpk).2.symm.trans h1.2.1) (by decide)
    · obtain ⟨hcmd, h6⟩ := herror hstat pk hpk
      refine grantOf_none hcmd (by rw [h6]; decide) (fun h4 => ?_) c
      exact absurd (h6.symm.trans h4.2.1) (by decide)

/-! ### Sending -/

theorem forwardData_channel (l : List UInt8) : (forwardData c l d).2.channel = d.channel := by
  rw [forwardData]
  dsimp only
  split
  · exact vfWrite_channel _
  · split
    · exact (vfWrite_channel _).trans (vfWrite_channel _)
    · exact (vfWrite_channel _).trans (vfWrite_channel _)

theorem sendData_cases (c : Nat) (l : List UInt8) (d : Device) :
    ((sendData c l d).1 = false ∧ (sendData c l d).2.channel = d.channel)
      ∨ ((sendData c l d).1 = true ∧ (sendData c l d).2.channel = Function.update d.channel c
          { d.channel c with h2pcredit := (d.channel c).h2pcredit - 1 }) := by
  have hchannel := forwardData_channel (d := d) (c := c) l
  rw [sendData]
  dsimp only
  by_cases hstat : (forwardData c l d).1 ≠ 0
  · rw [if_pos hstat]
    exact .inl ⟨rfl, hchannel⟩
  · rw [if_neg hstat]
    refine .inr ⟨rfl, ?_⟩
    show Function.update (forwardData c l d).2.channel c _ = _
    rw [hchannel]

theorem conserved_sent (h : Conserved d g) (l : List UInt8)
    (hcredit : (d.channel c).h2pcredit ≠ 0) :
    Conserved (sendData c l d).2 (account p g ⟨d, .sent c l, (sendData c l d).2⟩) := by
  have haccount : account p g ⟨d, .sent c l, (sendData c l d).2⟩
      = if (sendData c l d).1 = true then g.use c else g := rfl
  rw [haccount]
  obtain ⟨hbad, hchannel⟩ | ⟨hgood, hchannel⟩ := sendData_cases c l d
  · rw [hbad, if_neg nofun]
    exact h.congr fun c' => by rw [hchannel]
  · rw [hgood, if_pos rfl]
    intro c'
    rw [hchannel]
    by_cases hc : c' = c
    · subst hc
      have hpos : (d.channel c').h2pcredit.toNat ≠ 0 := fun h0 => hcredit (UInt16.toNat_inj.mp h0)
      have hdec : ((d.channel c').h2pcredit - 1).toNat = (d.channel c').h2pcredit.toNat - 1 := by
        have hle : (1 : UInt16).toNat ≤ (d.channel c').h2pcredit.toNat := Nat.one_le_iff_ne_zero.mpr hpos
        rw [UInt16.toNat_sub_of_le _ _ (UInt16.le_iff_toNat_le.mpr hle)]
        rfl
      have hbooks := h c'
      rw [Function.update_self]
      simp only [Account.use, Function.update_self, hdec]
      lia
    · rw [Function.update_of_ne hc]
      simpa [Account.use, hc] using h c'

theorem cutBuf_h2pcredit (size c' : Nat) :
    ((cutBuf c size d).2.channel c').h2pcredit = (d.channel c').h2pcredit := by
  rw [cutBuf]
  split
  · rw [h2pcredit_setChannel]
    split
    · next hc => rw [hc]
    · rfl
  · rw [h2pcredit_setChannel]
    split
    · next hc => rw [hc]
    · rfl

/-! ## Runs -/

theorem step_conserved {a : Act} (hstep : Step p a d d') (hok : CreditOk p ⟨d, a, d'⟩)
    (h : Conserved d g) : Conserved d' (account p g ⟨d, a, d'⟩) := by
  cases hstep with
  | written d l => exact h.silent nofun rfl fun c' => by rw [vfWrite_channel]
  | command hrun => exact conserved_command h hrun hok
  | reply hrun => exact conserved_reply h hrun hok
  | answer hrun hgood hrest => exact conserved_answer h hrun hgood hrest hok
  | data hrun => exact conserved_data h hrun hok
  | last hrun => exact conserved_last h hrun hok
  | sent l hcredit => exact conserved_sent h l hcredit
  | cut d c size => exact h.silent nofun rfl (cutBuf_h2pcredit size)
  | emptied d c =>
    refine h.silent nofun rfl fun c' => ?_
    rw [emptied, h2pcredit_setChannel]
    split
    · next hc => rw [hc]
    · rfl

end Steps

theorem Conserved.used_lt {d : Device} {g : Account} {c : Nat} (h : Conserved d g)
    (hcredit : (d.channel c).h2pcredit ≠ 0) : g.used c < g.granted c := by
  have hpos : (d.channel c).h2pcredit.toNat ≠ 0 := fun h0 => hcredit (UInt16.toNat_inj.mp h0)
  have := h c
  lia

/-- In every run of the channel functions whose acts keep books and counters together the
counters say what is granted and not used up, and no packet is sent without credit. -/
theorem credit_conserved (p : Proto) :
    (∀ call : Call, call.Of p → ∀ d, Gives (Reaches (Step p) d) (call.run p d))
      ∧ ∀ d d' g ts, Run (Step p) d ts d' → (∀ x ∈ ts, CreditOk p x) → Conserved d g →
        Conserved d' (ts.foldl (account p) g)
          ∧ ∀ ts₁ x ts₂ c l, ts = ts₁ ++ x :: ts₂ → x.act = .sent c l →
            (ts₁.foldl (account p) g).used c < (ts₁.foldl (account p) g).granted c := by
  refine ⟨fun call hcall d => call_reaches hcall d, ?_⟩
  intro d d' g ts hrun hok hd
  have hkeeps : ∀ {d' ts}, Run (Step p) d ts d' → (∀ x ∈ ts, CreditOk p x) →
      Conserved d' (ts.foldl (account p) g) := fun hrun hok =>
    hrun.keeps (fun a s t g hstep hx hs => step_conserved hstep hx hs) hd hok
  refine ⟨hkeeps hrun hok, ?_⟩
  rintro ts₁ ⟨s, a, t⟩ ts₂ c l rfl ha
  obtain rfl : a = .sent c l := ha
  obtain ⟨s', hfirst, hrest⟩ := hrun.of_append
  cases hrest with
  | cons hstep _ =>
    cases hstep with
    | sent _ hcredit =>
      exact (hkeeps hfirst fun x hx => hok x (List.mem_append_left _ hx)).used_lt hcredit

def Account.blank : Account := ⟨fun _ => 0, fun _ => 0⟩

theorem conserved_fresh (es : List (Event UInt8)) : Conserved (freshDevice 0 es) .blank :=
  fun _ => rfl

def grantPacket (hi lo : UInt8) : List UInt8 := [0, 0, 0, 11, 0, 0, 3, 2, 2, hi, lo]

theorem exists_of_toOption {α β : Type} {f : α → β} {b : β} {x : Except PacketFault α}
    (h : x.toOption.map f = some b) : ∃ a, x = .ok a ∧ f a = b := by
  cases x with
  | error e => cases h
  | ok a => exact ⟨a, rfl, Option.some.inj h⟩

theorem account_command {d d' : Device} {g : Account} {pk : List UInt8} {c : Nat}
    (hpk : packet (flat d.input) = some pk) :
    account .mlc g ⟨d, .command c, d'⟩ = g.grant (grantOf .mlc c pk) := by
  rw [account_packet (a := .command c) (fun _ _ h => nomatch h) fun pk _ h => nomatch h.1]
  show (match packet (flat d.input) with
    | none => g
    | some pk => g.grant (grantOf .mlc c pk)) = _
  rw [hpk]

set_option maxRecDepth 4096 in
/-- A grant of five. -/
theorem grant_conserved : ∃ d' ts, Run (Step .mlc) (freshDevice 0 [.piece (grantPacket 0 5)]) ts d'
    ∧ Conserved d' (ts.foldl (account .mlc) .blank) ∧ (d'.channel 2).h2pcredit = 5 := by
  obtain ⟨⟨stat, d'⟩, hd', hfive⟩ : ∃ x, reverseCmd .mlc (freshDevice 0 [.piece (grantPacket 0 5)])
      = .ok x ∧ (x.2.channel 2).h2pcredit = 5 := exists_of_toOption (by decide)
  have hpk : packet (flat (freshDevice 0 [.piece (grantPacket 0 5)]).input)
      = some (grantPacket 0 5) := by decide
  have hrun : Run (Step .mlc) _ _ _ := .cons (.command (c := 2) hd') (.nil d')
  refine ⟨d', _, hrun, ?_, hfive⟩
  refine ((credit_conserved .mlc).2 _ _ _ _ hrun (fun x hx => ?_) (conserved_fresh _)).1
  obtain rfl := List.mem_singleton.mp hx
  refine ⟨fun pk h c => ?_, rfl, fun pk h => ?_⟩
  · cases hpk.symm.trans h
    show 0 + grantOf .mlc 2 (grantPacket 0 5) c < 65536
    rw [grantOf_command (by decide) (by decide)]
    split
    · decide
    · decide
  · cases hpk.symm.trans h
    exact ⟨fun h4 => absurd h4 (by decide), fun hdata => absurd (by decide) hdata⟩

set_option maxRecDepth 4096 in
/-- Two grants of 65535 wrap around; the credit in a data packet that cannot be stored is lost. -/
theorem credit_not_conserved :
    (∃ d' ts, Run (Step .mlc) (freshDevice 0 [.piece (grantPacket 255 255),
        .piece (grantPacket 255 255)]) ts d'
      ∧ ¬ Conserved d' (ts.foldl (account .mlc) .blank))
      ∧ ∃ d' ts, Run (Step .mlc) (freshDevice 0 [.piece [2, 2, 0, 7, 9, 0, 65]]) ts d'
        ∧ ¬ Conserved d' (ts.foldl (account .mlc) .blank) := by
  constructor
  · obtain ⟨⟨_, d₁⟩, hd₁, hrest⟩ : ∃ x, reverseCmd .mlc (freshDevice 0
        [.piece (grantPacket 255 255), .piece (grantPacket 255 255)]) = .ok x
        ∧ (packet (flat x.2.input), (reverseCmd .mlc x.2).toOption.map fun y =>
          (y.2.channel 2).h2pcredit) = (some (grantPacket 255 255), some 65534) :=
      exists_of_toOption (by decide)
    obtain ⟨hpk, hsecond⟩ := Prod.mk.inj hrest
    obtain ⟨⟨_, d₂⟩, hd₂, hwrapped⟩ := exists_of_toOption hsecond
    have hfirst : packet (flat (freshDevice 0
        [.piece (grantPacket 255 255), .piece (grantPacket 255 255)]).input)
        = some (grantPacket 255 255) := by decide
    refine ⟨d₂, _, .cons (.command (c := 2) hd₁) (.cons (.command (c := 2) hd₂) (.nil d₂)),
      fun hcon => ?_⟩
    have hbooks := hcon 2
    rw [List.foldl_cons, List.foldl_cons, List.foldl_nil, account_command hfirst,
      account_command hpk, hwrapped] at hbooks
    exact absurd hbooks (by decide)
  · obtain ⟨⟨stat, d'⟩, hd', hzero⟩ : ∃ x, reverseCmd .mlc (freshDevice 0 [.piece [2, 2, 0, 7, 9, 0, 65]])
        = .ok x ∧ (x.2.channel 2).h2pcredit = 0 := exists_of_toOption (by decide)
    have hpk : packet (flat (freshDevice 0 [.piece [2, 2, 0, 7, 9, 0, 65]]).input)
        = some [2, 2, 0, 7, 9, 0, 65] := by decide
    refine ⟨d', _, .cons (.command (c := 2) hd') (.nil d'), fun hcon => ?_⟩
    have hbooks := hcon 2
    rw [List.foldl_cons, List.foldl_nil, account_command hpk, hzero] at hbooks
    exact absurd hbooks (by decide)

end Hplip.Hpmud
