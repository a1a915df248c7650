import Hplip.Hpmud.PacketSafety

/-!
# Packets and the cuts of the transport

The lower read function may hand out a packet in one piece or in many. What the functions that
wait for a packet do depends on the bytes and not on the cuts, but for a command packet among
the data: its loop puts every piece but the first at the length of the piece before it.
-/

namespace Hplip.Hpmud

open Pieces Checked

/-- The same device, the input cut in two ways. -/
structure Same (d d' : Device) : Prop where
  rest : d' = { d with input := d'.input }
  stream : flat d'.input = flat d.input
  solid : Solid d.input
  solid' : Solid d'.input

/-- The same return value. -/
def SameResult {α : Type} (x y : α × Device) : Prop := x.1 = y.1 ∧ Same x.2 y.2

theorem Same.elim {d d' : Device} (h : Same d d') :
    ∃ es, d' = { d with input := es } ∧ flat es = flat d.input ∧ Solid d.input ∧ Solid es :=
  ⟨d'.input, h.rest, h.stream, h.solid, h.solid'⟩

/-! ## Executing a packet -/

def OnInput (es : List (Event UInt8)) (x y : Nat × Device) : Prop :=
  y = (x.1, { x.2 with input := es })

section Exec

variable {p : Proto} {r : Ref} {d : Device}

theorem vfWrite_onInput (d : Device) (es : List (Event UInt8)) (l : List UInt8) :
    (vfWrite { d with input := es } l).2 = { (vfWrite d l).2 with input := es } := by
  obtain ⟨channel, buf, got, input, writes, output⟩ := d
  cases writes with
  | nil => rfl
  | cons w ws => cases w <;> rfl

theorem forwardReply_onInput (d : Device) (es : List (Event UInt8)) (l : List UInt8) :
    OnInput es (0, forwardReply d r l) (0, forwardReply { d with input := es } r l) := by
  cases r with
  | own => exact congrArg (Prod.mk 0) (vfWrite_onInput (d.setCells _ .own) es l)
  | rbuf c => exact congrArg (Prod.mk 0) (vfWrite_onInput (d.setCells _ (.rbuf c)) es l)

theorem storePacket_onInput (es : List (Event UInt8)) :
    Agrees (OnInput es) (storePacket r d) (storePacket r { d with input := es }) := by
  cases r with
  | own =>
    refine Agrees.require fun _ => Agrees.ite (fun _ => rfl) fun _ => ?_
    refine Agrees.ite (fun _ => rfl) fun _ => ?_
    exact Agrees.require fun _ => Agrees.require fun _ => rfl
  | rbuf c =>
    refine Agrees.require fun _ => Agrees.ite (fun _ => rfl) fun _ => ?_
    refine Agrees.ite (fun _ => rfl) fun _ => ?_
    exact Agrees.require fun _ => Agrees.require fun _ => rfl

theorem execCommand_onInput (es : List (Event UInt8)) :
    Agrees (OnInput es) (execCommand p r d) (execCommand p r { d with input := es }) := by
  rw [execCommand, execCommand, cells_input]
  dsimp only
  refine Agrees.require fun _ => Agrees.ite (fun _ => ?_) fun _ => Agrees.ite (fun _ => ?_) fun _ => ?_
  · refine Agrees.require fun _ => Agrees.require fun _ => ?_
    exact forwardReply_onInput (d.setChannel _ _) es _
  · refine Agrees.require fun _ => ?_
    exact forwardReply_onInput d es _
  · refine Agrees.ite (fun _ => rfl) fun _ => ?_
    exact forwardReply_onInput d es _

theorem execReverseCmd_onInput (es : List (Event UInt8)) :
    Agrees (OnInput es) (execReverseCmd p r d) (execReverseCmd p r { d with input := es }) := by
  rw [execReverseCmd, execReverseCmd, cells_input]
  refine Agrees.ite (fun _ => ?_) fun _ => execCommand_onInput es
  exact Agrees.ite (fun _ => storePacket_onInput es) fun _ => rfl

theorem execReverseCmd_same {d' : Device} (h : Same d d') :
    Agrees SameResult (execReverseCmd p r d) (execReverseCmd p r d') := by
  obtain ⟨es, rfl, hflat, hs, hs'⟩ := h.elim
  refine ((execReverseCmd_onInput es).and_gives execReverseCmd_input).mono ?_
  rintro ⟨n, d1⟩ y ⟨rfl, hin⟩
  exact ⟨rfl, rfl, by rw [hflat, hin], hin ▸ hs, hs'⟩

end Exec

/-! ## Reading -/

section Read

variable {p : Proto} {d d' : Device}

theorem receive_same {es : List (Event UInt8)} (h : flat es = flat d.input) (hs : Solid d.input)
    (hs' : Solid es) (r : Ref) (off size : Nat) :
    Same ({ d.receive r off (pull d.input size).1.flatten with input := (pull d.input size).2 })
      { Device.receive { d with input := es } r off (pull es size).1.flatten with
        input := (pull es size).2 } := by
  rw [pull_flatten es, h, ← pull_flatten]
  have hrest : flat (pull es size).2 = flat (pull d.input size).2 := by
    rw [flat_pull, flat_pull, h]
  cases r with
  | own => exact ⟨rfl, hrest, hs.pull size, hs'.pull size⟩
  | rbuf c => exact ⟨rfl, hrest, hs.pull size, hs'.pull size⟩

theorem readInto_same (h : Same d d') (r : Ref) (off size : Nat) :
    Agrees SameResult (readInto d r off size) (readInto d' r off size) := by
  obtain ⟨es, rfl, hflat, hs, hs'⟩ := h.elim
  refine Agrees.require fun _ => ⟨?_, receive_same hflat hs hs' r off size⟩
  rw [pull_flatten, pull_flatten, hflat]

theorem readField_same (h : Same d d') (r : Ref) (off n : Nat) :
    Agrees SameResult (readField d r off n) (readField d' r off n) := by
  refine Agrees.ite (fun _ => ?_) fun _ => ⟨rfl, h⟩
  refine Agrees.bind (readInto_same h r off _) ?_
  rintro ⟨n, d1⟩ ⟨n', d1'⟩ ⟨heq, hsame⟩
  cases heq
  exact ⟨rfl, hsame⟩

theorem forget_same (h : Same d d') :
    Same { d with got := fun _ => false } { d' with got := fun _ => false } := by
  obtain ⟨es, rfl, hflat, hs, hs'⟩ := h.elim
  exact ⟨rfl, hflat, hs, hs'⟩

end Read

/-! ## One packet -/

section Steps

variable {p : Proto} {d d' : Device}

theorem reverseCmd_same (h : Same d d') :
    Agrees SameResult (reverseCmd p d) (reverseCmd p d') := by
  refine Agrees.bind (readInto_same (forget_same h) .own 0 headerSize) ?_
  rintro ⟨n, d1⟩ ⟨n', d1'⟩ ⟨heq, hsame⟩
  cases heq
  obtain ⟨es, rfl, hflat, hs, hs'⟩ := hsame.elim
  refine Agrees.ite (fun _ => ⟨rfl, hsame⟩) fun _ => Agrees.ite (fun _ => ⟨rfl, hsame⟩) fun _ => ?_
  refine Agrees.bind (readField_same hsame .own headerSize _) ?_
  rintro ⟨whole, d2⟩ ⟨whole', d2'⟩ ⟨heq, hsame⟩
  cases heq
  exact Agrees.ite (fun _ => ⟨rfl, hsame⟩) fun _ => execReverseCmd_same hsame

theorem replyBody_same (h : Same d d') (n : Nat) :
    Agrees (Sum.LiftRel Same SameResult) (replyBody p n d) (replyBody p n d') := by
  refine Agrees.bind (readField_same h .own headerSize n) ?_
  rintro ⟨whole, d1⟩ ⟨whole', d1'⟩ ⟨heq, hsame⟩
  cases heq
  obtain ⟨es, rfl, hflat, hs, hs'⟩ := hsame.elim
  refine Agrees.ite (fun _ => .inr ⟨rfl, hsame⟩) fun _ => Agrees.require fun _ => ?_
  refine Agrees.ite (fun _ => .inr ⟨rfl, hsame⟩) fun _ => ?_
  refine Agrees.bind (execReverseCmd_same hsame) ?_
  rintro ⟨stat, d2⟩ ⟨stat', d2'⟩ ⟨heq, hsame⟩
  cases heq
  exact Agrees.ite (fun _ => .inr ⟨rfl, hsame⟩) fun _ => .inl hsame

theorem firmwareHack_same (h : Same d d') :
    Agrees SameResult (firmwareHack d) (firmwareHack d') := by
  obtain ⟨es, rfl, hflat, hs, hs'⟩ := h.elim
  have hshifted : Same d.shifted { d.shifted with input := es } := ⟨rfl, hflat, hs, hs'⟩
  refine Agrees.ite (fun _ => ⟨rfl, hshifted⟩) fun _ => ?_
  refine Agrees.bind (readInto_same hshifted .own (headerSize - 1) 1) ?_
  rintro ⟨n, d1⟩ ⟨n', d1'⟩ ⟨heq, hsame⟩
  cases heq
  exact Agrees.ite (fun _ => ⟨rfl, hsame⟩) fun _ => ⟨rfl, hsame⟩

theorem replyStep_same (h : Same d d') :
    Agrees (Sum.LiftRel Same SameResult) (replyStep p d) (replyStep p d') := by
  refine Agrees.bind (readInto_same (forget_same h) .own 0 headerSize) ?_
  rintro ⟨n, d1⟩ ⟨n', d1'⟩ ⟨heq, hsame⟩
  cases heq
  obtain ⟨es, rfl, hflat, hs, hs'⟩ := hsame.elim
  refine Agrees.ite (fun _ => .inr ⟨rfl, hsame⟩) fun _ => ?_
  refine Agrees.ite (fun _ => .inr ⟨rfl, hsame⟩) fun _ => Agrees.ite (fun _ => ?_) fun _ => ?_
  · cases p with
    | dot4 => exact .inr ⟨rfl, hsame⟩
    | mlc =>
      refine Agrees.bind (firmwareHack_same hsame) ?_
      rintro ⟨len?, d2⟩ ⟨len?', d2'⟩ ⟨heq, hsame⟩
      cases heq
      cases len? with
      | none => exact .inr ⟨rfl, hsame⟩
      | some n => exact replyBody_same hsame n
  · exact replyBody_same hsame _

end Steps

/-! ## Commands among the data -/

/-- The next packet in the wait for data on channel `pc`: if it is a command, what follows its
header comes in one piece. -/
def CutOk (pc : Nat) (d : Device) : Prop :=
  let head := (pullFlat (flat d.input) headerSize).1
  let v : Nat → Option UInt8 := fun i => head[i]?
  head.length = headerSize → lengthOf head ≤ headerSize + bufferSize →
    (d.channel pc).sockid ≠ 0 → byteAt v 0 = 0 → byteAt v 1 = 0 →
      (pull (pull d.input headerSize).2 (lengthOf head - headerSize)).1.length ≤ 1

section Data

variable {p : Proto} {r : Ref} {d d' : Device}

theorem pieces_eq {ps ps' : List (List UInt8)} (h : ps.flatten = ps'.flatten)
    (hlen : ps.length ≤ 1) (hlen' : ps'.length ≤ 1) (hne : ∀ l ∈ ps, l ≠ [])
    (hne' : ∀ l ∈ ps', l ≠ []) : ps = ps' := by
  match ps, ps' with
  | [], [] => rfl
  | [], [l'] => exact absurd (by simpa using h.symm) (hne' l' List.mem_cons_self)
  | [l], [] => exact absurd (by simpa using h) (hne l List.mem_cons_self)
  | [l], [l'] => simpa using h
  | _ :: _ :: _, _ => simp at hlen
  | _, _ :: _ :: _ => simp at hlen'

theorem placeCommand_same (h : Same d d') (off : Nat) (ps : List (List UInt8)) :
    SameResult (placeCommand d r off ps) (placeCommand d' r off ps) := by
  induction ps generalizing d d' off with
  | nil => exact ⟨rfl, h⟩
  | cons l ps ih =>
    rw [placeCommand, placeCommand]
    refine ih ?_ _
    obtain ⟨es, rfl, hflat, hs, hs'⟩ := h.elim
    cases r with
    | own => exact ⟨rfl, hflat, hs, hs'⟩
    | rbuf c => exact ⟨rfl, hflat, hs, hs'⟩

theorem commandAmongData_same (h : Same d d') {n : Nat}
    (hone : (pull d.input (n - headerSize)).1.length ≤ 1)
    (hone' : (pull d'.input (n - headerSize)).1.length ≤ 1) :
    Agrees (Sum.LiftRel Same SameResult) (commandAmongData p r n d)
      (commandAmongData p r n d') := by
  obtain ⟨es, rfl, hflat, hs, hs'⟩ := h.elim
  have hps : (pull es (n - headerSize)).1 = (pull d.input (n - headerSize)).1 :=
    pieces_eq (by rw [pull_flatten, pull_flatten, hflat]) hone' hone (hs'.ne_nil _) (hs.ne_nil _)
  have hrest : flat (pull es (n - headerSize)).2 = flat (pull d.input (n - headerSize)).2 := by
    rw [flat_pull, flat_pull, hflat]
  have hsame : Same { d with input := (pull d.input (n - headerSize)).2 }
    { d with input := (pull es (n - headerSize)).2 } := ⟨rfl, hrest, hs.pull _, hs'.pull _⟩
  obtain ⟨htotal, hplaced⟩ :=
    placeCommand_same (r := r) hsame headerSize (pull d.input (n - headerSize)).1
  refine Agrees.require fun _ => ?_
  dsimp only
  rw [hps]
  refine Agrees.ite (fun _ => .inr ⟨htotal, hplaced⟩) fun _ => ?_
  exact Agrees.bind (execReverseCmd_same hplaced) fun y y' hy => .inl hy.2

theorem dataAside_same (h : Same d d') (n : Nat) :
    Agrees (Sum.LiftRel Same SameResult) (dataAside r n d) (dataAside r n d') := by
  obtain ⟨es, rfl, hflat, hs, hs'⟩ := h.elim
  have hl : (pull es (n - headerSize)).1.flatten = (pull d.input (n - headerSize)).1.flatten := by
    rw [pull_flatten, pull_flatten, hflat]
  have hrest : flat (pull es (n - headerSize)).2 = flat (pull d.input (n - headerSize)).2 := by
    rw [flat_pull, flat_pull, hflat]
  rw [dataAside, dataAside, cells_input]
  dsimp only
  rw [hl]
  refine Agrees.require fun _ => Agrees.ite (fun _ => .inr ⟨rfl, h⟩) fun _ => ?_
  refine Agrees.ite (fun _ => .inr ⟨rfl, h⟩) fun _ => Agrees.require fun _ => ?_
  refine Agrees.ite (fun _ => .inr ⟨rfl, rfl, hrest, hs.pull _, hs'.pull _⟩) fun _ => .inl ?_
  cases r with
  | own => exact ⟨rfl, hrest, hs.pull _, hs'.pull _⟩
  | rbuf c => exact ⟨rfl, hrest, hs.pull _, hs'.pull _⟩

theorem ownData_same (h : Same d d') (pc n : Nat) :
    Agrees (Sum.LiftRel Same SameResult) (ownData pc n d) (ownData pc n d') := by
  obtain ⟨es, rfl, hflat, hs, hs'⟩ := h.elim
  have hsame (ch : Channel) :
      Same (d.setChannel pc ch) (Device.setChannel { d with input := es } pc ch) :=
    ⟨rfl, hflat, hs, hs'⟩
  refine Agrees.ite (fun _ => ?_) fun _ => .inr ⟨rfl, hsame _⟩
  refine Agrees.bind (readInto_same (hsame _) (.rbuf pc) 0 _) ?_
  rintro ⟨n, d1⟩ ⟨n', d1'⟩ ⟨heq, hsame⟩
  cases heq
  exact .inr ⟨rfl, hsame⟩

theorem header_same (h : Same d d') (r : Ref) : Same (d.header r) (d'.header r) := by
  have hread := readInto_same (forget_same h) r 0 headerSize
  rw [header_eq, header_eq] at hread
  exact hread.2

theorem CutOk.one {pc : Nat} (h : CutOk pc d)
    (hlen : (pullFlat (flat d.input) headerSize).1.length = headerSize)
    (hmax : be16 ((d.header (.rbuf pc)).channel pc).rbuf 2 ≤ headerSize + bufferSize)
    (hother : ((d.header (.rbuf pc)).channel pc).rbuf 0
      ≠ ((d.header (.rbuf pc)).channel pc).sockid)
    (hzero : ((d.header (.rbuf pc)).channel pc).rbuf 0 = 0
      ∧ ((d.header (.rbuf pc)).channel pc).rbuf 1 = 0) :
    (pull (d.header (.rbuf pc)).input
      (be16 ((d.header (.rbuf pc)).channel pc).rbuf 2 - headerSize)).1.length ≤ 1 := by
  have hv := view_header (d := d) (.rbuf pc)
  have hbuf := length_of_view hv hlen
  have h0 := cells_of_view (i := 0) hv (by rw [hlen]; decide)
  have h1 := cells_of_view (i := 1) hv (by rw [hlen]; decide)
  rw [cells_rbuf] at hbuf h0 h1
  rw [hbuf] at hmax ⊢
  rw [h0, h1] at hzero
  rw [h0, hzero.1, sockid_header] at hother
  exact h hlen hmax hother.symm hzero.1 hzero.2

theorem dataStep_same {pc : Nat} (h : Same d d') (hcut : CutOk pc d) (hcut' : CutOk pc d') :
    Agrees (Sum.LiftRel Same SameResult) (dataStep p pc d) (dataStep p pc d') := by
  have hsame := header_same h (.rbuf pc)
  have hone := hcut.one
  have hone' := hcut'.one
  have hchannel : (d'.header (.rbuf pc)).channel = (d.header (.rbuf pc)).channel :=
    by rw [hsame.rest]
  rw [dataStep, dataStep, header_eq, header_eq, h.stream]
  rw [h.stream, hchannel] at hone'
  refine Agrees.ite (fun _ => .inr ⟨rfl, hsame⟩) fun hlen => ?_
  have hlen := not_not.mp hlen
  rw [hchannel]
  refine Agrees.ite (fun _ => .inr ⟨rfl, hsame⟩) fun hmax => ?_
  have hmax := Nat.le_of_not_lt hmax
  refine Agrees.ite (fun hother => ?_) fun _ => ownData_same hsame pc _
  refine Agrees.ite (fun hzero => ?_) fun _ => Agrees.ite (fun _ => ?_) fun _ => ?_
  · exact commandAmongData_same hsame (hone hlen hmax hother.1 hzero)
      (hone' hlen hmax hother.1 hzero)
  · exact dataAside_same hsame _
  · exact .inr ⟨rfl, hsame⟩

end Data

/-- Two ways to cut the same bytes: a wait for a command and a wait for a reply do the same in
both, a wait for data does where every command it meets comes in one piece. -/
theorem cuts_irrelevant (p : Proto) (pc : Nat) {d d' : Device} (h : Same d d') :
    Agrees SameResult (reverseCmd p d) (reverseCmd p d')
      ∧ Agrees SameResult (reverseReply p d) (reverseReply p d')
      ∧ (Along (dataStep p pc) (CutOk pc) (rounds d) d →
          Along (dataStep p pc) (CutOk pc) (rounds d') d' →
            Agrees SameResult (reverseData p pc d) (reverseData p pc d')) := by
  have hrounds : rounds d' = rounds d := by rw [rounds, rounds, h.stream]
  refine ⟨reverseCmd_same h, ?_, fun hcut hcut' => ?_⟩
  · rw [reverseReply, reverseReply, hrounds]
    exact iterate_related (fun _ => True) (fun _ => True) (fun s t hst _ _ => replyStep_same hst) _
      d d' h (along_true (fun _ => trivial) _ _) (along_true (fun _ => trivial) _ _)
  · rw [reverseData, reverseData, hrounds]
    exact iterate_related (CutOk pc) (CutOk pc) (fun s t hst hs ht => dataStep_same hst hs ht) _
      d d' h hcut (hrounds ▸ hcut')

/-- One byte of data for channel 2, in one piece and in two. -/
theorem cut_data_same :
    Agrees SameResult (mlcReverseData 2 (freshDevice 1 [.piece [2, 2, 0, 7, 0, 0, 65]]))
      (mlcReverseData 2 (freshDevice 1 [.piece [2, 2, 0], .piece [7, 0, 0, 65]])) := by
  have hdata (es : List (Event UInt8))
      (h : byteAt (fun i => (pullFlat (flat es) headerSize).1[i]?) 0 = 2)
      (hstep : (dataStep .mlc 2 (freshDevice 1 es)).toOption.map Sum.isRight = some true) :
      Along (dataStep .mlc 2) (CutOk 2) (rounds (freshDevice 1 es)) (freshDevice 1 es) := by
    refine ⟨fun _ _ _ hzero => absurd (h.symm.trans hzero) (by decide), fun s' hs' => ?_⟩
    rw [hs'] at hstep
    cases hstep
  refine (cuts_irrelevant .mlc 2 ⟨rfl, rfl, ?_, ?_⟩).2.2 (hdata _ rfl (by decide))
    (hdata _ rfl (by decide))
  · simp [Solid, freshDevice]
  · simp [Solid, freshDevice]

/-- What a wait for data on channel 2 leaves to be seen: how many bytes came, the credit of
the channel and what was written. -/
def seenOfTwo (x : Except PacketFault (Nat × Device)) : Option (Nat × UInt16 × List (List UInt8)) :=
  x.toOption.map fun y => (y.1, (y.2.channel 2).h2pcredit, y.2.output)

/-- A credit command and a byte of data. -/
theorem cut_credit_lost :
    flat [Event.piece [0, 0, 0, 11, 0, 0], .piece [3, 2, 2, 0, 5], .piece [2, 2, 0, 7, 0, 0, 65]]
        = flat [.piece [0, 0, 0, 11, 0, 0], .piece [3], .piece [2, 2, 0, 5],
          .piece [2, 2, 0, 7, 0, 0, (65 : UInt8)]]
      ∧ seenOfTwo (mlcReverseData 2 (freshDevice 1 [.piece [0, 0, 0, 11, 0, 0],
          .piece [3, 2, 2, 0, 5], .piece [2, 2, 0, 7, 0, 0, 65]]))
        = some (1, 5, [[0, 0, 0, 8, 0, 0, 0x83, 0]])
      ∧ seenOfTwo (mlcReverseData 2 (freshDevice 1 [.piece [0, 0, 0, 11, 0, 0], .piece [3],
          .piece [2, 2, 0, 5], .piece [2, 2, 0, 7, 0, 0, 65]]))
        = some (1, 0, []) :=
  ⟨rfl, by decide, by decide⟩

end Hplip.Hpmud
