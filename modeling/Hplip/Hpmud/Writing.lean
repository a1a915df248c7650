import Mathlib
import Hplip.Hpmud.Acts

/-!
# Writing to a channel

`musb_mlc_channel_write` and `musb_dot4_channel_write` cut a buffer into packets of what the
peripheral takes less the header. A turn of the loop waits for credit, sends a packet or ends.
-/

namespace Hplip.Hpmud

open Checked

/-! ## Waiting takes from the wire -/

section Left

variable {p : Proto} {d : Device}

theorem replyBody_done_left {n : Nat} :
    Gives (fun x => ∀ y, x = .inr y → y.2.left ≤ d.left) (replyBody p n d) := by
  refine Gives.bind readField_left fun x hx => Gives.ite (fun _ => Gives.pure fun y hy => ?_)
    fun _ => Gives.require fun _ => Gives.ite (fun _ => Gives.pure fun y hy => ?_) fun _ => ?_
  · cases hy
    exact hx
  · cases hy
    exact hx
  · refine Gives.bind execReverseCmd_input fun z hz => Gives.ite (fun _ => Gives.pure fun y hy => ?_)
      fun _ => Gives.pure nofun
    cases hy
    rw [Device.left, hz]
    exact hx

theorem replyStep_done_left :
    Gives (fun x => ∀ y, x = .inr y → y.2.left ≤ d.left ∧ (y.1 = 0 → y.2.left < d.left))
      (replyStep p d) := by
  have hbelow {x : Device ⊕ (Nat × Device)} (h : ∀ y, x = .inr y → y.2.left < d.left) :
      ∀ y, x = .inr y → y.2.left ≤ d.left ∧ (y.1 = 0 → y.2.left < d.left) :=
    fun y hy => ⟨Nat.le_of_lt (h y hy), fun _ => h y hy⟩
  rw [replyStep, header_eq .own]
  refine Gives.ite (fun _ => Gives.pure fun y hy => ?_) fun hlen => ?_
  · cases hy
    refine ⟨?_, (by rintro ⟨⟩)⟩
    rw [Device.left, flat_header]
    exact Pieces.pullFlat_rest_le _ _
  have hless := header_left (r := .own) (not_not.mp hlen)
  refine Gives.ite (fun _ => Gives.pure (hbelow fun y hy => ?_)) fun _ =>
    Gives.ite (fun _ => ?_) fun _ => ?_
  · cases hy
    exact hless
  · cases p with
    | dot4 =>
      refine Gives.pure (hbelow fun y hy => ?_)
      cases hy
      exact hless
    | mlc =>
      refine Gives.bind firmwareHack_left fun x hx => ?_
      obtain ⟨len?, d1⟩ := x
      cases len? with
      | none =>
        refine Gives.pure (hbelow fun y hy => ?_)
        cases hy
        exact Nat.lt_of_le_of_lt hx hless
      | some n =>
        refine replyBody_done_left.mono fun x hdone => hbelow fun y hy => ?_
        exact Nat.lt_of_le_of_lt (hdone y hy) (Nat.lt_of_le_of_lt hx hless)
  · exact replyBody_done_left.mono fun x hdone => hbelow fun y hy =>
      Nat.lt_of_le_of_lt (hdone y hy) hless

theorem reverseReply_left :
    Gives (fun x => x.2.left ≤ d.left ∧ (x.1 = 0 → x.2.left < d.left)) (reverseReply p d) := by
  refine iterate_gives (I := fun s : Device => s.left ≤ d.left) ?_ ?_ _ (Nat.le_refl _)
  · intro s s' hs hstep
    exact Nat.le_of_lt (Nat.lt_of_lt_of_le (replyStep_left hstep) hs)
  · intro s y hs hstep
    obtain ⟨hle, hlt⟩ := replyStep_done_left _ hstep y rfl
    exact ⟨Nat.le_trans hle hs, fun h => Nat.lt_of_lt_of_le (hlt h) hs⟩

theorem accepted_stat {code : UInt8} {stat : Nat} :
    Gives (fun good => good = true → stat = 0) (accepted code stat d) := by
  refine Gives.ite (fun _ => Gives.pure nofun) fun hstat => ?_
  exact fun good _ _ => not_not.mp hstat

theorem request_left {code : UInt8} {fields : List UInt8} :
    Gives (fun x => x.2.left ≤ d.left ∧ (x.1 = true → x.2.left < d.left))
      (request p code fields d) := by
  have hwritten (l l' : List UInt8) :
      (vfWrite { d with buf := overwrite d.buf 0 l } l').2.left = d.left := by
    rw [Device.left, vfWrite_input]
    rfl
  rw [request]
  refine Gives.ite (fun _ => Gives.pure ⟨Nat.le_of_eq (hwritten _ _), (by rintro ⟨⟩)⟩) fun _ => ?_
  have hreply := reverseReply_left (p := p) (d := (vfWrite
    { d with buf := overwrite d.buf 0 (commandPacket p code fields) } (commandPacket p code fields)).2)
  rw [hwritten] at hreply
  refine Gives.bind hreply fun x hx => Gives.bind accepted_stat fun good hgood => ?_
  exact Gives.pure ⟨hx.1, fun h => hx.2 (hgood h)⟩

theorem creditRequestAccepted_left {c : Nat} :
    Gives (fun d' => d'.left = d.left) (creditRequestAccepted p c d) :=
  Gives.bind (R := fun _ => True) (fun _ _ => trivial) fun _ _ => Gives.pure rfl

theorem creditRequest_left {c : Nat} {n : UInt16} :
    Gives (fun x => x.2.left ≤ d.left ∧ (x.1 = 0 → x.2.left < d.left))
      (creditRequest p c n d) := by
  refine Gives.bind request_left fun x hx => Gives.ite (fun _ => Gives.pure ⟨hx.1, nofun⟩) fun hgood => ?_
  have hless := hx.2 (Bool.not_eq_false _ ▸ hgood)
  refine Gives.bind creditRequestAccepted_left fun d' hd' => Gives.pure ?_
  rw [hd']
  exact ⟨hx.1, fun _ => hless⟩

theorem reverseCmd_left :
    Gives (fun x => x.2.left ≤ d.left ∧ (x.1 = 0 → x.2.left < d.left)) (reverseCmd p d) := by
  have hbelow {x : Nat × Device} (h : x.2.left < d.left) :
      x.2.left ≤ d.left ∧ (x.1 = 0 → x.2.left < d.left) := ⟨Nat.le_of_lt h, fun _ => h⟩
  rw [reverseCmd, header_eq .own]
  refine Gives.ite (fun _ => Gives.pure ⟨?_, (by rintro ⟨⟩)⟩) fun hlen => ?_
  · rw [Device.left, flat_header]
    exact Pieces.pullFlat_rest_le _ _
  have hless := header_left (r := .own) (not_not.mp hlen)
  refine Gives.ite (fun _ => Gives.pure (hbelow hless)) fun _ => ?_
  refine Gives.bind readField_left fun x hx => Gives.ite (fun _ => Gives.pure (hbelow ?_)) fun _ => ?_
  · exact Nat.lt_of_le_of_lt hx hless
  · refine execReverseCmd_input.mono fun y hy => hbelow ?_
    rw [Device.left, hy]
    exact Nat.lt_of_le_of_lt hx hless

end Left

/-! ## Turns -/

/-- The turn from `s` comes to a packet, and `s₁` is the state by then. -/
def Hands (p : Proto) (c : Nat) (s s₁ : WriteState) : Prop :=
  ∀ dlen, writeStep p c dlen s = writePacket c dlen s₁

def packetLength (dlen : Int) (s : WriteState) : Int :=
  if dlen < s.rest.length then dlen else s.rest.length

/-- What a wait can take up: the bytes on the wire and the change to miser mode. -/
def WriteState.patience (s : WriteState) : Nat := s.dev.left + if s.mode = .miser then 0 else 1

def Waits (s : WriteState) : WriteState ⊕ (Bool × WriteState) → Prop
  | .inl s' => s'.rest = s.rest ∧ s'.wrote = s.wrote ∧ s'.patience < s.patience
  | .inr (ok, s') => s'.rest = s.rest ∧ s'.wrote = s.wrote ∧ (ok = true → s.rest = [])

/-- The states of a turn that comes to a packet: the buffer is as it was. -/
structure AtPacket (s s₁ : WriteState) : Prop where
  rest : s₁.rest = s.rest
  wrote : s₁.wrote = s.wrote
  ne_nil : s.rest ≠ []
  patience : s₁.patience ≤ s.patience

/-- A turn comes to a packet, or it is the same whatever the length of packets is. -/
def Shaped (c : Nat) (s : WriteState)
    (turn : Int → Except PacketFault (WriteState ⊕ (Bool × WriteState))) : Prop :=
  (∃ s₁, (∀ dlen, turn dlen = writePacket c dlen s₁) ∧ AtPacket s s₁)
    ∨ ∃ x, (∀ dlen, turn dlen = x) ∧ Gives (Waits s) x

section Turns

variable {c : Nat} {s : WriteState}

theorem Shaped.wait {x : Except PacketFault (WriteState ⊕ (Bool × WriteState))}
    (h : Gives (Waits s) x) : Shaped c s fun _ => x := .inr ⟨x, fun _ => rfl, h⟩

theorem Shaped.packet {s₁ : WriteState} (h : AtPacket s s₁) :
    Shaped c s fun dlen => writePacket c dlen s₁ := .inl ⟨s₁, fun _ => rfl, h⟩

theorem Shaped.ite {q : Prop} [Decidable q]
    {f g : Int → Except PacketFault (WriteState ⊕ (Bool × WriteState))}
    (hf : q → Shaped c s f) (hg : ¬ q → Shaped c s g) :
    Shaped c s fun dlen => if q then f dlen else g dlen := by
  by_cases hq : q
  · simpa only [if_pos hq] using hf hq
  · simpa only [if_neg hq] using hg hq

theorem Shaped.bind {β : Type} {R : β → Prop} {x : Except PacketFault β}
    {f : Int → β → Except PacketFault (WriteState ⊕ (Bool × WriteState))} (hx : Gives R x)
    (hf : ∀ b, R b → Shaped c s fun dlen => f dlen b) : Shaped c s fun dlen => x >>= f dlen := by
  cases x with
  | error e => exact .inr ⟨.error e, fun _ => rfl, nofun⟩
  | ok b => exact hf b (hx b rfl)

theorem callIf_left {d : Device} {need : Prop} [Decidable need]
    {f : Device → Except PacketFault (Nat × Device)}
    (h : Gives (fun x => x.2.left ≤ d.left ∧ (x.1 = 0 → x.2.left < d.left)) (f d)) :
    Gives (fun x => x.2.left ≤ d.left ∧ (need → x.1 = 0 → x.2.left < d.left))
      (callIf need f d) := by
  refine Gives.ite (fun _ => ?_) fun hnot => ?_
  · exact h.mono fun x hx => ⟨hx.1, fun _ => hx.2⟩
  · exact Gives.ok ⟨Nat.le_refl _, fun hneed => absurd hneed hnot⟩

theorem patience_lt {d : Device} {m : IoMode} {cnt : Nat} (h : d.left < s.dev.left)
    (hm : m = s.mode) :
    WriteState.patience { s with dev := d, mode := m, cnt := cnt } < s.patience := by
  subst hm
  exact Nat.add_lt_add_right h _

theorem shaped_mlc : Shaped c s fun dlen => mlcWriteStep c dlen s := by
  refine Shaped.ite (fun hrest => .wait (Gives.pure ⟨rfl, rfl, fun _ => hrest⟩)) fun hrest => ?_
  refine Shaped.bind (callIf_left creditRequest_left) fun x hx => ?_
  refine Shaped.ite (fun _ => .wait (Gives.pure ⟨rfl, rfl, nofun⟩)) fun _ => ?_
  refine Shaped.ite (fun _ => ?_) fun _ => ?_
  · refine Shaped.bind reverseCmd_left fun y hy => ?_
    have hle : y.2.left ≤ s.dev.left := Nat.le_trans hy.1 hx.1
    refine Shaped.ite (fun _ => ?_) fun _ => ?_
    · refine Shaped.ite (fun hret => ?_) fun _ => ?_
      · refine .wait (Gives.pure ⟨rfl, rfl, patience_lt ?_ rfl⟩)
        exact Nat.lt_of_lt_of_le (hy.2 hret) hx.1
      refine Shaped.ite (fun hmode => ?_) fun _ => .wait (Gives.pure ⟨rfl, rfl, nofun⟩)
      refine .wait (Gives.pure ⟨rfl, rfl, ?_⟩)
      rw [WriteState.patience, WriteState.patience, if_pos rfl, if_neg hmode]
      exact Nat.lt_succ_of_le hle
    · exact .packet ⟨rfl, rfl, hrest, Nat.add_le_add_right hle _⟩
  · exact .packet ⟨rfl, rfl, hrest, Nat.add_le_add_right hx.1 _⟩

theorem shaped_dot4 : Shaped c s fun dlen => dot4WriteStep c dlen s := by
  refine Shaped.ite (fun hrest => .wait (Gives.pure ⟨rfl, rfl, fun _ => hrest⟩)) fun hrest => ?_
  refine Shaped.bind (callIf_left creditRequest_left) fun x hx => ?_
  refine Shaped.ite (fun _ => .wait (Gives.pure ⟨rfl, rfl, nofun⟩)) fun hstat => ?_
  refine Shaped.ite (fun hpoll => ?_) fun _ => ?_
  · refine Shaped.ite (fun _ => .wait (Gives.pure ⟨rfl, rfl, nofun⟩)) fun _ => ?_
    refine .wait (Gives.pure ⟨rfl, rfl, patience_lt ?_ rfl⟩)
    exact hx.2 hpoll.1 (not_not.mp hstat)
  refine Shaped.ite (fun _ => ?_) fun _ => ?_
  · refine Shaped.bind reverseCmd_left fun y hy => ?_
    have hle : y.2.left ≤ s.dev.left := Nat.le_trans hy.1 hx.1
    refine Shaped.ite (fun _ => ?_) fun _ => ?_
    · refine Shaped.ite (fun hret => ?_) fun _ => .wait (Gives.pure ⟨rfl, rfl, nofun⟩)
      refine .wait (Gives.pure ⟨rfl, rfl, patience_lt ?_ rfl⟩)
      exact Nat.lt_of_lt_of_le (hy.2 hret) hx.1
    · exact .packet ⟨rfl, rfl, hrest, Nat.add_le_add_right hle _⟩
  · exact .packet ⟨rfl, rfl, hrest, Nat.add_le_add_right hx.1 _⟩

theorem writeStep_cases (p : Proto) (c : Nat) (s : WriteState) :
    Shaped c s fun dlen => writeStep p c dlen s := by
  cases p with
  | mlc => exact shaped_mlc
  | dot4 => exact shaped_dot4

end Turns

/-! ## Packets -/

def Packed (dlen : Int) (s : WriteState) : WriteState ⊕ (Bool × WriteState) → Prop
  | .inl s' => s'.rest = s.rest.drop (packetLength dlen s).toNat ∧
    s'.wrote = s.wrote + (packetLength dlen s).toNat ∧ s'.patience = s.patience
  | .inr (ok, s') => s'.rest = s.rest ∧ s'.wrote = s.wrote ∧ s'.patience = s.patience ∧ ok = false

section Packets

variable {p : Proto} {c : Nat} {dlen : Int} {s s₁ : WriteState}

theorem packetLength_nonneg (h : 0 ≤ dlen) : 0 ≤ packetLength dlen s := by
  rw [packetLength]
  split
  · exact h
  · exact Int.natCast_nonneg _

theorem packetLength_pos (h : 0 < dlen) (hrest : s.rest ≠ []) : 0 < packetLength dlen s := by
  rw [packetLength]
  split
  · exact h
  · exact Int.natCast_pos.mpr (List.length_pos_iff.mpr hrest)

theorem packetLength_le (dlen : Int) (s : WriteState) :
    packetLength dlen s ≤ dlen ∧ packetLength dlen s ≤ s.rest.length := by
  rw [packetLength]
  split <;> omega

theorem sendData_left (l : List UInt8) (d : Device) : (sendData c l d).2.left = d.left := by
  have hinput : (sendData c l d).2.input = d.input := by
    simp only [sendData, forwardData]
    split <;> split <;> simp_all [Device.setChannel, vfWrite_input]
  rw [Device.left, hinput, Device.left]

theorem writePacket_gives : Gives (Packed dlen s) (writePacket c dlen s) := by
  have hleft := sendData_left (c := c) (s.rest.take (packetLength dlen s).toNat) s.dev
  have hpatience {d : Device} {l : List UInt8} {w n : Nat} (h : d.left = s.dev.left) :
      WriteState.patience ⟨d, s.mode, l, n, w⟩ = s.patience := by
    rw [WriteState.patience, h, WriteState.patience]
  refine Gives.require fun _ => Gives.ite (fun _ => Gives.pure ?_) fun _ => Gives.pure ?_
  · exact ⟨rfl, rfl, hpatience hleft, rfl⟩
  · exact ⟨rfl, rfl, hpatience hleft⟩

theorem writePacket_safe (h : 0 ≤ dlen) : Safe (writePacket c dlen s) := by
  rw [writePacket]
  refine safe_require_bind.mpr ⟨packetLength_nonneg h, ?_⟩
  exact safe_return.mpr fun _ => safe_pure _

theorem writePacket_negative (h : dlen < 0) : writePacket c dlen s = .error .size := by
  have hlen : packetLength dlen s < 0 := Int.lt_of_le_of_lt (packetLength_le dlen s).1 h
  rw [packetLength] at hlen
  rw [writePacket, require_neg (Int.not_le.mpr hlen)]
  rfl

theorem writePacket_inj (h : writePacket c 0 s = writePacket c 0 s₁) :
    s.rest = s₁.rest ∧ s.wrote = s₁.wrote ∧ s.patience = s₁.patience := by
  have hzero (t : WriteState) : (packetLength 0 t).toNat = 0 := by
    have := (packetLength_le 0 t).1
    lia
  obtain ⟨x, hx⟩ := writePacket_safe (c := c) (s := s) (Int.le_refl 0)
  have hs := writePacket_gives x hx
  have hs₁ := writePacket_gives x (h ▸ hx)
  cases x with
  | inl s' =>
    simp only [Packed, hzero, List.drop_zero, Nat.add_zero] at hs hs₁
    exact ⟨hs.1.symm.trans hs₁.1, hs.2.1.symm.trans hs₁.2.1, hs.2.2.symm.trans hs₁.2.2⟩
  | inr y =>
    exact ⟨hs.1.symm.trans hs₁.1, hs.2.1.symm.trans hs₁.2.1, hs.2.2.1.symm.trans hs₁.2.2.1⟩

theorem Hands.atPacket (h : Hands p c s s₁) : AtPacket s s₁ := by
  obtain ⟨s', hs', hat⟩ | ⟨x, hx, -⟩ := writeStep_cases p c s
  · obtain ⟨hrest, hwrote, hpatience⟩ := writePacket_inj ((h 0).symm.trans (hs' 0))
    exact ⟨hrest.trans hat.rest, hwrote.trans hat.wrote, hat.ne_nil, hpatience ▸ hat.patience⟩
  · -- A turn that does not look at the length cannot refuse a negative one only.
    obtain ⟨y, hy⟩ := writePacket_safe (c := c) (s := s₁) (Int.le_refl 0)
    have hok : x = .ok y := (hx 0).symm.trans ((h 0).trans hy)
    have herror : x = .error .size :=
      (hx (-1)).symm.trans ((h (-1)).trans (writePacket_negative (by decide)))
    rw [hok] at herror
    cases herror

theorem writeStep_on {s' : WriteState} (hstep : writeStep p c dlen s = .ok (.inl s')) :
    (∃ s₁, Hands p c s s₁ ∧ Packed dlen s₁ (.inl s')) ∨
      (∀ s₁, ¬ Hands p c s s₁) ∧ Waits s (.inl s') := by
  obtain ⟨s₁, hs₁, -⟩ | ⟨x, hx, hwait⟩ := writeStep_cases p c s
  · exact .inl ⟨s₁, hs₁, writePacket_gives _ ((hs₁ dlen).symm.trans hstep)⟩
  · refine .inr ⟨fun s₁ h => ?_, hwait _ ((hx dlen).symm.trans hstep)⟩
    have hok : x = .ok (.inl s') := (hx dlen).symm.trans hstep
    have herror : x = .error .size :=
      (hx (-1)).symm.trans ((h (-1)).trans (writePacket_negative (by decide)))
    rw [hok] at herror
    cases herror

theorem writeStep_end {ok : Bool} {s' : WriteState}
    (hstep : writeStep p c dlen s = .ok (.inr (ok, s'))) :
    s'.wrote = s.wrote ∧ (ok = true → s.rest = []) := by
  obtain ⟨s₁, hs₁, hat⟩ | ⟨x, hx, hwait⟩ := writeStep_cases p c s
  · obtain ⟨-, hwrote, -, hok⟩ := writePacket_gives _ ((hs₁ dlen).symm.trans hstep)
    exact ⟨hwrote.trans hat.wrote, fun h => absurd (hok.symm.trans h) Bool.false_ne_true⟩
  · exact (hwait _ ((hx dlen).symm.trans hstep)).2

theorem writeStep_credit (hrest : s.rest ≠ []) (h : (s.dev.channel c).h2pcredit ≠ 0) :
    writeStep p c dlen s = writePacket c dlen s := by
  cases p with
  | mlc =>
    rw [writeStep, mlcWriteStep, if_neg hrest, callIf, if_neg fun hwait => h hwait.1]
    simp [bind, Except.bind, h]
  | dot4 =>
    rw [writeStep, dot4WriteStep, if_neg hrest, callIf, if_neg fun hwait => h hwait.1]
    simp [bind, Except.bind, h]

theorem writeStep_nil (hrest : s.rest = []) : writeStep p c dlen s = .ok (.inr (true, s)) := by
  cases p with
  | mlc => exact if_pos hrest
  | dot4 => exact if_pos hrest

theorem sendData_ok (l : List UInt8) {d : Device} (h : d.writes = []) :
    (sendData c l d).1 = true ∧ (sendData c l d).2.writes = [] ∧
      ((sendData c l d).2.channel c).h2pcredit = (d.channel c).h2pcredit - 1 := by
  simp [sendData, forwardData, vfWrite, h, Device.setChannel]

theorem writePacket_ok (hdlen : 0 ≤ dlen) (h : s.dev.writes = []) :
    ∃ s', writePacket c dlen s = .ok (.inl s') ∧ s'.dev.writes = [] ∧
      (s'.dev.channel c).h2pcredit = (s.dev.channel c).h2pcredit - 1 := by
  obtain ⟨hsent, hwrites, hcredit⟩ :=
    sendData_ok (c := c) (s.rest.take (packetLength dlen s).toNat) h
  have hlen := packetLength_nonneg (s := s) hdlen
  rw [packetLength] at hsent hwrites hcredit hlen
  rw [writePacket, require_pos hlen]
  refine ⟨_, if_neg (ne_true_of_eq_false · hsent), hwrites, hcredit⟩

end Packets

/-! ## Runs -/

/-- The loop has come to `s` after `k` turns and has sent the packets `ps`. -/
inductive Sends (p : Proto) (c : Nat) (dlen : Int) (s₀ : WriteState) :
    Nat → List (List UInt8) → WriteState → Prop
  | start : Sends p c dlen s₀ 0 [] s₀
  | wait {k : Nat} {ps : List (List UInt8)} {s s' : WriteState}
    (hsends : Sends p c dlen s₀ k ps s) (hnot : ∀ s₁, ¬ Hands p c s s₁)
    (hstep : writeStep p c dlen s = .ok (.inl s')) : Sends p c dlen s₀ (k + 1) ps s'
  | packet {k : Nat} {ps : List (List UInt8)} {s s₁ s' : WriteState}
    (hsends : Sends p c dlen s₀ k ps s) (hhands : Hands p c s s₁)
    (hstep : writeStep p c dlen s = .ok (.inl s')) :
    Sends p c dlen s₀ (k + 1) (ps ++ [s₁.rest.take (packetLength dlen s₁).toNat]) s'

def writeStart (mode : IoMode) (l : List UInt8) (d : Device) : WriteState := ⟨d, mode, l, 0, 0⟩

/-- `dlen = pc->h2psize - sizeof(MLCHeader)` -/
def dataLength (c : Nat) (d : Device) : Int := (d.channel c).h2psize.toNat - headerSize

section Runs

variable {p : Proto} {c k : Nat} {dlen : Int} {mode : IoMode} {l : List UInt8} {d : Device}
  {ps : List (List UInt8)} {s : WriteState}

/-- What the packets so far leave, and how many turns there can have been. -/
structure Sending (l : List UInt8) (w k : Nat) (ps : List (List UInt8)) (s : WriteState) :
    Prop where
  flatten : ps.flatten = l.take s.wrote
  rest : s.rest = l.drop s.wrote
  wrote : s.wrote ≤ l.length
  turns : k + s.patience + s.rest.length ≤ w

theorem Sending.packet {w : Nat} {s₁ s' : WriteState} (h : Sending l w k ps s) (hdlen : 0 < dlen)
    (hat : AtPacket s s₁) (hpacked : Packed dlen s₁ (.inl s')) :
    Sending l w (k + 1) (ps ++ [s₁.rest.take (packetLength dlen s₁).toNat]) s' := by
  obtain ⟨hrest, hwrote, hpatience⟩ := hpacked
  have hpos := packetLength_pos hdlen (hat.rest ▸ hat.ne_nil)
  have hle := (packetLength_le dlen s₁).2
  generalize (packetLength dlen s₁) = n at hrest hwrote hpos hle ⊢
  obtain ⟨n, rfl⟩ := Int.eq_ofNat_of_zero_le (Int.le_of_lt hpos)
  simp only [Int.toNat_natCast] at hrest hwrote hpos hle ⊢
  rw [hat.rest, h.rest] at hrest hle
  rw [hat.wrote] at hwrote
  rw [List.length_drop] at hle
  have hturns := h.turns
  have hwrote' := h.wrote
  have hless := hat.patience
  rw [h.rest, List.length_drop] at hturns
  constructor
  · rw [List.flatten_append, h.flatten, hwrote, List.take_add, hat.rest, h.rest]
    simp
  · rw [hrest, hwrote, List.drop_drop]
  · lia
  · rw [hrest, List.drop_drop, List.length_drop, hpatience]
    lia

theorem Sends.sending (hdlen : 0 < dlen) (h : Sends p c dlen (writeStart mode l d) k ps s) :
    Sending l ((writeStart mode l d).patience + l.length) k ps s := by
  induction h with
  | start => exact ⟨rfl, rfl, Nat.zero_le _, by rw [Nat.zero_add]; exact Nat.le_refl _⟩
  | wait _ hnot hstep ih =>
    obtain ⟨s₁, hhands, -⟩ | ⟨-, hrest, hwrote, hpatience⟩ := writeStep_on hstep
    · exact absurd hhands (hnot s₁)
    · have hturns := ih.turns
      refine ⟨hwrote ▸ ih.flatten, hrest.trans (hwrote ▸ ih.rest), hwrote ▸ ih.wrote, ?_⟩
      rw [hrest]
      lia
  | packet _ hhands hstep ih =>
    refine ih.packet hdlen hhands.atPacket ?_
    exact writePacket_gives _ ((hhands dlen).symm.trans hstep)

theorem Sends.ends {s₀ : WriteState} {e : PacketFault} {x : Bool × WriteState} {fuel : Nat}
    (h : Sends p c dlen s₀ k ps s) (hloop : iterate (writeStep p c dlen) e fuel s = .ok x) :
    ∃ k' ps' s', Sends p c dlen s₀ k' ps' s' ∧ writeStep p c dlen s' = .ok (.inr x) := by
  induction fuel generalizing k ps s with
  | zero => cases hloop
  | succ fuel ih =>
    rw [iterate] at hloop
    cases hstep : writeStep p c dlen s with
    | error e' =>
      rw [hstep] at hloop
      cases hloop
    | ok r =>
      rw [hstep] at hloop
      cases r with
      | inl s' =>
        obtain ⟨s₁, hhands, -⟩ | ⟨hnot, -⟩ := writeStep_on hstep
        · exact ih (h.packet hhands hstep) hloop
        · exact ih (h.wait hnot hstep) hloop
      | inr y =>
        cases hloop
        exact ⟨k, ps, s, h, hstep⟩

theorem writes_on_credit (hdlen : 0 < dlen) (hwrites : s.dev.writes = [])
    (hcredit : (s.rest.length : Int) ≤ dlen * (s.dev.channel c).h2pcredit.toNat) :
    ∃ fuel s', iterate (writeStep p c dlen) .stuck fuel s = .ok (true, s') ∧
      s'.wrote = s.wrote + s.rest.length := by
  -- by induction on the credit
  generalize hn : (s.dev.channel c).h2pcredit.toNat = n at hcredit
  induction n generalizing s with
  | zero =>
    have hrest : s.rest = [] := by
      rw [Int.natCast_zero, Int.mul_zero] at hcredit
      exact List.length_eq_zero_iff.mp (by lia)
    refine ⟨1, s, ?_, by rw [hrest]; rfl⟩
    rw [iterate, writeStep_nil hrest]
  | succ n ih =>
    by_cases hrest : s.rest = []
    · refine ⟨1, s, ?_, by rw [hrest]; rfl⟩
      rw [iterate, writeStep_nil hrest]
    have hne : (s.dev.channel c).h2pcredit ≠ 0 := by
      intro h
      rw [h] at hn
      cases hn
    obtain ⟨s', hs', hwrites', hcredit'⟩ := writePacket_ok (c := c) (Int.le_of_lt hdlen) hwrites
    obtain ⟨hrest', hwrote', -⟩ := writePacket_gives _ hs'
    have hn' : (s'.dev.channel c).h2pcredit.toNat = n := by
      rw [hcredit', UInt16.toNat_sub_of_le _ _ (by rw [UInt16.le_iff_toNat_le, hn]; simp), hn]
      rfl
    have hle := packetLength_le dlen s
    have hlength : (packetLength dlen s).toNat ≤ s.rest.length := by lia
    -- a packet is full or the last one, and takes one credit
    have hshort : (s'.rest.length : Int) ≤ dlen * n := by
      rw [hrest', List.length_drop]
      rw [Int.natCast_succ, Int.mul_add, Int.mul_one] at hcredit
      have hpacket : packetLength dlen s = dlen ∨ packetLength dlen s = s.rest.length := by
        rw [packetLength]
        split <;> simp
      have hpos : 0 ≤ dlen * n := Int.mul_nonneg (Int.le_of_lt hdlen) (Int.natCast_nonneg n)
      lia
    obtain ⟨fuel, s'', hfuel, hwrote''⟩ := ih hwrites' hn' hshort
    refine ⟨fuel + 1, s'', ?_, ?_⟩
    · rw [iterate, writeStep_credit hrest hne, hs']
      exact hfuel
    · rw [hwrote'', hwrote', hrest', List.length_drop]
      lia

end Runs

/-! ## Writing well -/

/-- Packets of the buffer that carry something and are no longer than the peripheral takes; the
buffer sent once and in order; an end, and the end of the buffer once there is credit for it. -/
structure WritesWell (p : Proto) (c : Nat) (mode : IoMode) (l : List UInt8) (d : Device) : Prop where
  packets {k : Nat} {ps : List (List UInt8)} {s s₁ : WriteState}
    (h : Sends p c (dataLength c d) (writeStart mode l d) k ps s) (hhands : Hands p c s s₁) :
    0 < packetLength (dataLength c d) s₁ ∧
      headerSize + packetLength (dataLength c d) s₁ ≤ (d.channel c).h2psize.toNat
  data {fuel : Nat} {ok : Bool} {s : WriteState}
    (h : channelWrite p fuel c mode l d = .ok (ok, s)) :
    ∃ k ps s', Sends p c (dataLength c d) (writeStart mode l d) k ps s' ∧
      writeStep p c (dataLength c d) s' = .ok (.inr (ok, s)) ∧ ps.flatten = l.take s.wrote ∧
      s.wrote ≤ l.length ∧ (ok = true → ps.flatten = l)
  ends : ∃ n, ∀ k ps s, Sends p c (dataLength c d) (writeStart mode l d) k ps s → k ≤ n
  succeeds {k : Nat} {ps : List (List UInt8)} {s : WriteState}
    (h : Sends p c (dataLength c d) (writeStart mode l d) k ps s) (hwrites : s.dev.writes = [])
    (hcredit : (s.rest.length : Int) ≤ dataLength c d * (s.dev.channel c).h2pcredit.toNat) :
    ∃ fuel s', iterate (writeStep p c (dataLength c d)) .stuck fuel s = .ok (true, s') ∧
      s'.wrote = l.length

section WritesWell

variable {p : Proto} {c : Nat} {mode : IoMode} {l : List UInt8} {d : Device}

theorem writesWell_of_pos (hsize : headerSize < (d.channel c).h2psize.toNat) :
    WritesWell p c mode l d := by
  have hdlen : 0 < dataLength c d := by
    rw [dataLength]
    lia
  constructor
  · intro k ps s s₁ h hhands
    have hat := hhands.atPacket
    have hle := (packetLength_le (dataLength c d) s₁).1
    refine ⟨packetLength_pos hdlen (hat.rest ▸ hat.ne_nil), ?_⟩
    rw [dataLength] at hle ⊢
    lia
  · intro fuel ok s h
    obtain ⟨k, ps, s', hsends, hlast⟩ := Sends.start.ends h
    have hsending := hsends.sending hdlen
    obtain ⟨hwrote, hrest⟩ := writeStep_end hlast
    refine ⟨k, ps, s', hsends, hlast, hwrote ▸ hsending.flatten, hwrote ▸ hsending.wrote, ?_⟩
    intro hok
    have hdrop : l.length ≤ s'.wrote := List.drop_eq_nil_iff.mp (hsending.rest ▸ hrest hok)
    rw [hsending.flatten, List.take_of_length_le hdrop]
  · refine ⟨(writeStart mode l d).patience + l.length, fun k ps s h => ?_⟩
    have hturns := (h.sending hdlen).turns
    lia
  · intro k ps s h hwrites hcredit
    have hsending := h.sending hdlen
    obtain ⟨fuel, s', hfuel, hwrote⟩ := writes_on_credit (p := p) hdlen hwrites hcredit
    refine ⟨fuel, s', hfuel, ?_⟩
    have hle := hsending.wrote
    rw [hwrote, hsending.rest, List.length_drop]
    lia

theorem writesWell_nil : WritesWell p c mode [] d := by
  have hstart {k : Nat} {ps : List (List UInt8)} {s : WriteState}
      (h : Sends p c (dataLength c d) (writeStart mode [] d) k ps s) :
      k = 0 ∧ ps = [] ∧ s = writeStart mode [] d := by
    have hstop {s' : WriteState}
        (hstep : writeStep p c (dataLength c d) (writeStart mode [] d) = .ok (.inl s')) : False := by
      rw [writeStep_nil rfl] at hstep
      cases hstep
    induction h with
    | start => exact ⟨rfl, rfl, rfl⟩
    | wait _ _ hstep ih => exact (hstop (ih.2.2 ▸ hstep)).elim
    | packet _ _ hstep ih => exact (hstop (ih.2.2 ▸ hstep)).elim
  constructor
  · intro k ps s s₁ h hhands
    obtain ⟨-, -, rfl⟩ := hstart h
    exact absurd rfl hhands.atPacket.ne_nil
  · intro fuel ok s h
    obtain ⟨k, ps, s', hsends, hlast⟩ := Sends.start.ends h
    obtain ⟨-, rfl, rfl⟩ := hstart hsends
    have hwrote := (writeStep_end hlast).1
    exact ⟨k, [], _, hsends, hlast, by simp, Nat.le_of_eq hwrote, fun _ => rfl⟩
  · exact ⟨0, fun k ps s h => Nat.le_of_eq (hstart h).1⟩
  · intro k ps s h _ _
    obtain ⟨-, -, rfl⟩ := hstart h
    refine ⟨1, writeStart mode [] d, ?_, rfl⟩
    rw [iterate, writeStep_nil rfl]

/-- A device that takes packets of `z` bytes and has given credit for one. -/
def granting (z : UInt16) : Device where
  channel _ := ⟨1, 1, 0, z, 0, fun _ => 0, 0, 0⟩
  buf _ := 0
  got _ := false
  input := []
  writes := []
  output := []

theorem not_writesWell {z : UInt16} (hz : z.toNat ≤ headerSize) (hl : l ≠ []) :
    ¬ WritesWell p c mode l (granting z) := by
  intro h
  have hhands : Hands p c (writeStart mode l (granting z)) (writeStart mode l (granting z)) :=
    fun dlen => writeStep_credit hl (show (1 : UInt16) ≠ 0 by decide)
  have hpos := (h.packets .start hhands).1
  have hle := (packetLength_le (dataLength c (granting z)) (writeStart mode l (granting z))).1
  have hdlen : dataLength c (granting z) = z.toNat - headerSize := rfl
  omega

end WritesWell

/-- **Writing.** Whatever the device does, the buffer is sent in packets that carry something and
fit the peripheral, exactly when the peripheral takes more than a header. -/
theorem writes_iff (p : Proto) (c : Nat) (z : UInt16) (l : List UInt8) :
    (∀ mode d, (d.channel c).h2psize = z → WritesWell p c mode l d) ↔
      headerSize < z.toNat ∨ l = [] := by
  constructor
  · intro h
    by_contra hnot
    obtain ⟨hz, hl⟩ := not_or.mp hnot
    exact not_writesWell (Nat.not_lt.mp hz) hl (h .normal (granting z) rfl)
  · intro h mode d hz
    obtain hz' | rfl := h
    · exact writesWell_of_pos (hz ▸ hz')
    · exact writesWell_nil

/-- A peripheral that takes packets of a header only is sent an empty one. -/
theorem empty_packet_sent :
    ¬ ∀ (p : Proto) (c : Nat) (mode : IoMode) (l : List UInt8) (d : Device),
      WritesWell p c mode l d :=
  fun h => not_writesWell (z := 6) (by decide) (List.cons_ne_nil 65 [])
    (h .mlc 1 .normal [65] (granting 6))

end Hplip.Hpmud
