import Hplip.Ip.JpegFix

/-!
# Sending a JPEG on, call by call (xjpg_fix.c, xjpg_dec.c)

`jpgFix_convert` sends the saved header, then whatever input the decoder says that it has used, and
last the number of rows for the SOF marker. Three positions are counted: the decoder's in its
input, that of the output, and the one that the client is told to read from.

The loop of `jpgDecode_convert` is modelled with its counters; what one MCU does to the rest of the
decoder is a parameter. The decoder's rows go to the header buffer, which has been sent by then.
-/

namespace Hplip.Ip.JpegFix

/-! ## The decoder -/

abbrev maxMcuSize : Nat := 6 * 304

structure Geometry where
  mcusPerRow : Nat
  rowsPerMcu : Nat
  rowCountOffset : Nat
  rowsPerMcu_pos : 0 < rowsPerMcu
  deriving DecidableEq

/-- `struct jpg_dec`: the counters, and in `coder` all that they do not depend on. -/
structure Decoding (σ : Type) where
  coder : σ
  geometry : Geometry
  dwInNextPos : Nat
  rowsDone : Nat
  mcusDone : Nat
  sendingRows : Bool
  gotEOI : Bool
  lNumRows : Int
  deriving DecidableEq

/-- What `decode_MCU` and the marker behind the MCU have done: the bytes read, and what is left. -/
structure Mcu (σ : Type) where
  coder : σ
  nBytes : Nat
  bDecoded : Bool
  gotEOI : Bool
  lNumRows : Int
  iErrorCode : Nat
  /-- Without an MCU there is an EOI or an error. -/
  ends : bDecoded = true ∨ gotEOI = true ∨ iErrorCode ≠ 0

structure Coder (σ : Type) where
  decodeMcu : Decoding σ → List UInt8 → Mcu σ
  copyOutRows : Decoding σ → Nat → List UInt8

structure Result where
  done : Bool
  fatalError : Bool
  inputError : Bool
  newOutputPage : Bool
  rows : Bool
  deriving DecidableEq

/-- `IP_READY_FOR_DATA` -/
def ready : Result := ⟨false, false, false, false, false⟩

/-- A call of the decoder under way: its state, `*pdwInputUsed` and `ret_val`. -/
structure Parse (σ : Type) where
  s : Decoding σ
  used : Nat
  ret : Result

section Decoder

variable {σ : Type} (c : Coder σ) (input : List UInt8)

def countMcu (bDecoded : Bool) (s : Decoding σ) : Decoding σ :=
  if bDecoded then
    if s.geometry.mcusPerRow ≤ s.mcusDone + 1 then { s with sendingRows := true, mcusDone := 0 }
    else { s with mcusDone := s.mcusDone + 1 }
  else s

def nextMcu (p : Parse σ) : Mcu σ := c.decodeMcu p.s (input.drop p.used)

/-- The state behind an MCU of which `n` bytes count. -/
def behind (m : Mcu σ) (s : Decoding σ) (pos : Nat) : Decoding σ :=
  { s with coder := m.coder, gotEOI := m.gotEOI, lNumRows := m.lNumRows, dwInNextPos := pos }

def mcuRound (p : Parse σ) : Parse σ :=
  let m := nextMcu c input p
  let pos := (p.s.dwInNextPos + m.nBytes) % 2 ^ 32
  if input.length < p.used + m.nBytes then
    -- the parser has read past the end, and the position goes back to where the input ends
    ⟨countMcu m.bDecoded (behind m p.s (dwordSub (pos + input.length) m.nBytes)), input.length,
      { p.ret with inputError := true }⟩
  else if m.iErrorCode ≠ 0 then
    ⟨behind m p.s pos, p.used + m.nBytes, { ready with fatalError := true, inputError := true }⟩
  else
    ⟨countMcu m.bDecoded (behind m p.s pos), p.used + m.nBytes,
      { p.ret with newOutputPage := p.ret.newOutputPage || m.gotEOI }⟩

def goesOn (p : Parse σ) : Bool :=
  !p.ret.fatalError && !p.s.gotEOI && !p.s.sendingRows && maxMcuSize ≤ input.length - p.used

def mcuLoop : Nat → Parse σ → Parse σ
  | 0, p => mcuRound c input p
  | n + 1, p =>
    if goesOn input (mcuRound c input p) then mcuLoop n (mcuRound c input p)
    else mcuRound c input p

def parseInput (s : Decoding σ) : Option (List UInt8) → Parse σ
  | none => ⟨s, 0, { ready with done := true, inputError := !s.gotEOI }⟩
  | some input =>
    -- bytes behind the EOI are discarded
    if s.gotEOI then ⟨s, input.length, ready⟩
    else mcuLoop c input (s.geometry.mcusPerRow - s.mcusDone) ⟨s, 0, ready⟩

def allSent (s : Decoding σ) (rows : Nat) : Bool := 0 ≤ s.lNumRows && s.lNumRows ≤ rows

/-- "Sending the output rows"; `n_rows` is 1. -/
def sendRow (p : Parse σ) : Parse σ × List UInt8 :=
  if p.s.sendingRows then
    if allSent p.s p.s.rowsDone then (⟨{ p.s with sendingRows := false }, p.used, p.ret⟩, [])
    else
      let rows := p.s.rowsDone + 1
      let more := !allSent p.s rows && rows % p.s.geometry.rowsPerMcu != 0
      (⟨{ p.s with rowsDone := rows, sendingRows := more }, p.used, { p.ret with rows := true }⟩,
        c.copyOutRows p.s (p.s.rowsDone % p.s.geometry.rowsPerMcu))
  else (p, [])

/-- `jpgDecode_convert`: the state with what is used and returned, and the row. -/
def decodeConvert (s : Decoding σ) (input : Option (List UInt8)) : Parse σ × List UInt8 :=
  let p := if s.sendingRows then ⟨s, 0, ready⟩ else parseInput c s input
  if p.ret.fatalError then (p, []) else sendRow c p

end Decoder

/-! ## The calls -/

/-- `JFIX_INST` -/
structure Fix (σ : Type) where
  slave : Decoding σ
  headerBuffer : List UInt8
  outNextPos : Nat
  lenHeader : Nat
  lenAddedHeader : Nat
  readyForSofRewrite : Nat
  deriving DecidableEq

structure Call (σ : Type) where
  g : Fix σ
  done : Bool
  fatalError : Bool
  inputNextPos : Nat
  output : List UInt8
  outputThisPos : Nat

def bendSetShort (x : Nat) : List UInt8 := [(x / 256).toUInt8, x.toUInt8]

abbrev Chunk := Nat × List UInt8

section Fixing

variable {σ : Type} (c : Coder σ)

/-- `rewriteSof`; nothing, where it writes behind the output buffer. -/
def rewriteSof (g : Fix σ) (dwOutputAvail : Nat) : Option (Call σ) :=
  let nextPos := dwordSub g.outNextPos g.lenAddedHeader
  if g.readyForSofRewrite = 0 then some ⟨g, true, false, nextPos, [], g.outNextPos⟩
  else if dwOutputAvail < 2 then none
  else some ⟨{ g with readyForSofRewrite := 2 ^ 32 - 1 }, true, false, nextPos,
    bendSetShort g.slave.rowsDone, g.slave.geometry.rowCountOffset⟩

def scanData (g : Fix σ) (input : Option (List UInt8)) (dwOutputAvail : Nat) : Option (Call σ) :=
  let d := decodeConvert c g.slave input
  let used := d.1.used
  let g := { g with
    slave := d.1.s
    headerBuffer := d.2 ++ g.headerBuffer.drop d.2.length
    readyForSofRewrite := if d.1.ret.done then 1 else 0 }
  let nextPos := dwordSub g.slave.dwInNextPos g.lenAddedHeader
  if d.1.ret.done ∧ used = 0 then rewriteSof g dwOutputAvail
  else if dwOutputAvail < used then some ⟨g, false, true, nextPos, [], 0⟩
  else some ⟨{ g with outNextPos := (g.outNextPos + used) % 2 ^ 32 }, d.1.ret.done,
    d.1.ret.fatalError, nextPos, (input.getD []).take used, g.outNextPos⟩

/-- `jpgFix_convert` -/
def convert (g : Fix σ) (input : Option (List UInt8)) (dwOutputAvail : Nat) : Option (Call σ) :=
  if g.outNextPos < g.lenHeader then
    let len := min (g.lenHeader - g.outNextPos) dwOutputAvail
    some ⟨{ g with outNextPos := g.outNextPos + len }, false, false,
      dwordSub g.lenHeader g.lenAddedHeader, (g.headerBuffer.drop g.outNextPos).take len,
      g.outNextPos⟩
  else if g.readyForSofRewrite = 0 then scanData c g input dwOutputAvail
  else rewriteSof g dwOutputAvail

/-! ## The client -/

inductive Status where
  | running
  | done
  | failed
  /-- The output buffer has been left. -/
  | outside
  deriving DecidableEq

structure Client (σ : Type) where
  g : Fix σ
  nextPos : Nat
  chunks : List Chunk
  status : Status
  deriving DecidableEq

structure Ask where
  inputLen : Nat
  outputAvail : Nat

variable (file : List UInt8)

/-- The input, from the reported position on; at the end of the file a flush. -/
def offered (s : Client σ) (a : Ask) : Option (List UInt8) :=
  if file.length ≤ s.nextPos then none else some ((file.drop s.nextPos).take a.inputLen)

def step (s : Client σ) (a : Ask) : Client σ :=
  if s.status = .running then
    match convert c s.g (offered file s a) a.outputAvail with
    | none => { s with status := .outside }
    | some r => ⟨r.g, r.inputNextPos, s.chunks ++ [(r.outputThisPos, r.output)],
      if r.fatalError then .failed else if r.done then .done else .running⟩
  else s

def run (s : Client σ) (asks : List Ask) : Client σ := asks.foldl (step c file) s

end Fixing

/-! ## The header -/

/-- What the decoder's `getActualTraits` has found in a buffer. -/
structure Header (σ : Type) (buf : List UInt8) where
  coder : σ
  geometry : Geometry
  lNumRows : Int
  used : Nat
  used_le : used ≤ buf.length
  deriving DecidableEq

/-- The decoder's `getActualTraits`. -/
abbrev HeaderParser (σ : Type) := (buf : List UInt8) → Option (Header σ buf)

section Start

variable {σ : Type} (shiftBack : Nat → Nat → Nat) (parse : HeaderParser σ)

def slaveOf : Slave := fun buf => (parse buf).map fun h => (h.used, h.used)

def Header.decoding {buf : List UInt8} (h : Header σ buf) : Decoding σ :=
  ⟨h.coder, h.geometry, h.used, 0, 0, false, false, h.lNumRows⟩

def accept (lenAddedHeader : Nat) : Reply → Option (Client σ)
  | .done headerBuffer _ inputNextPos => (parse headerBuffer).map fun h =>
    ⟨⟨h.decoding, headerBuffer, 0, h.used, lenAddedHeader, 0⟩, inputNextPos, [], .running⟩
  | _ => none

/-- The client behind `jpgFix_getActualTraits` for the first input, if that is accepted. -/
def start (input : List UInt8) : Option (Client σ) :=
  accept parse (dwordSub (header shiftBack input).length (lenRemovedHeader input))
    (getActualTraits shiftBack (slaveOf parse) input)

end Start

/-! ## What is asked -/

/-- The chunks are one behind the other and make `out`. -/
inductive Tiles : List Chunk → List UInt8 → Prop
  | nil : Tiles [] []
  | snoc {chunks : List Chunk} {out : List UInt8} (bytes : List UInt8) (h : Tiles chunks out) :
    Tiles (chunks ++ [(out.length, bytes)]) (out ++ bytes)

def place (out : List UInt8) (chunk : Chunk) : List UInt8 :=
  out.take chunk.1 ++ List.replicate (chunk.1 - out.length) 0 ++ chunk.2
    ++ out.drop (chunk.1 + chunk.2.length)

def placed (chunks : List Chunk) : List UInt8 := chunks.foldl place []

section Asked

variable {σ : Type} (c : Coder σ) (file : List UInt8)

/-- **Only the header changes**: until the end there is a part of the whole file, each byte once
and in order; then the whole file but for the two bytes that hold the number of rows decoded, and
these are sent once. -/
structure Fixes (whole : List UInt8) (offset : Nat) (s : Client σ) : Prop where
  status : s.status = .running ∨ s.status = .done
  running : s.status = .running → ∃ out, Tiles s.chunks out ∧ out <+: whole
  done : s.status = .done → ∃ data hi lo, s.chunks = data ++ [(offset, [hi, lo])]
    ∧ Tiles data whole ∧ placed s.chunks = place whole (offset, [hi, lo])
    ∧ bendGetShort hi lo = s.g.slave.rowsDone

/-- The output buffer is at least as large as the input offered. -/
def Roomy (s : Client σ) (a : Ask) : Prop := ((offered file s a).getD []).length ≤ a.outputAvail

/-- An MCU takes `MAX_MCU_SIZE` bytes at most, and is not in error unless the input ends in it. -/
def Sound (input : List UInt8) (p : Parse σ) : Prop :=
  (nextMcu c input p).nBytes ≤ maxMcuSize
    ∧ ((nextMcu c input p).iErrorCode ≠ 0 → input.length < p.used + (nextMcu c input p).nBytes)

instance (input : List UInt8) (p : Parse σ) : Decidable (Sound c input p) :=
  inferInstanceAs (Decidable (_ ∧ (_ → _)))

def AllSound (input : List UInt8) : Nat → Parse σ → Prop
  | 0, p => Sound c input p
  | n + 1, p => Sound c input p
    ∧ (goesOn input (mcuRound c input p) = true → AllSound input n (mcuRound c input p))

instance decidableAllSound (input : List UInt8) :
    (n : Nat) → (p : Parse σ) → Decidable (AllSound c input n p)
  | 0, p => inferInstanceAs (Decidable (Sound c input p))
  | n + 1, p =>
    have := decidableAllSound input n (mcuRound c input p)
    inferInstanceAs (Decidable (_ ∧ (_ → _)))

/-- When a call does what it should: nothing is offered behind the EOI, and the MCUs are sound; at
a flush there is room for two bytes, which the number of rows fits. -/
def Meets (s : Client σ) (a : Ask) : Option (List UInt8) → Prop
  | none => 2 ≤ a.outputAvail ∧ s.g.slave.rowsDone < 2 ^ 16
  | some input => s.g.lenHeader ≤ s.g.outNextPos → s.g.slave.sendingRows = false →
    s.g.slave.gotEOI = false ∧ AllSound c input
      (s.g.slave.geometry.mcusPerRow - s.g.slave.mcusDone) ⟨s.g.slave, 0, ready⟩

instance (s : Client σ) (a : Ask) : (input : Option (List UInt8)) → Decidable (Meets c s a input)
  | none => inferInstanceAs (Decidable (_ ∧ _))
  | some _ => inferInstanceAs (Decidable (_ → _ → _ ∧ _))

def AllMeet : Client σ → List Ask → Prop
  | _, [] => True
  | s, a :: as =>
    (Roomy file s a ∧ (s.status = .running → Meets c s a (offered file s a)))
      ∧ AllMeet (step c file s a) as

instance decidableAllMeet : (s : Client σ) → (asks : List Ask) → Decidable (AllMeet c file s asks)
  | _, [] => inferInstanceAs (Decidable True)
  | s, a :: as =>
    have := decidableAllMeet (step c file s a) as
    have : Decidable (Roomy file s a) := inferInstanceAs (Decidable (_ ≤ _))
    inferInstanceAs (Decidable ((_ ∧ (_ → _)) ∧ _))

end Asked

/-! ## The loop of the decoder -/

section Loop

variable {σ : Type} {c : Coder σ} {input : List UInt8} {pos limit : Nat} {geometry : Geometry}

/-- So far `p.used` bytes have been used, and the position says so. -/
structure Consumed (pos : Nat) (geometry : Geometry) (limit : Nat) (p : Parse σ) : Prop where
  geometry : p.s.geometry = geometry
  used : p.used ≤ limit
  pos : p.s.dwInNextPos = (pos + p.used) % 2 ^ 32
  done : p.ret.done = false
  fatalError : p.ret.fatalError = false

theorem countMcu_keeps (b : Bool) (s : Decoding σ) :
    (countMcu b s).geometry = s.geometry ∧ (countMcu b s).dwInNextPos = s.dwInNextPos := by
  rw [countMcu]
  split_ifs <;> exact ⟨rfl, rfl⟩

theorem Consumed.mcuRound {p : Parse σ} (h : Consumed pos geometry input.length p)
    (hsound : Sound c input p) (hfits : p.used = 0 ∨ p.used + maxMcuSize ≤ input.length) :
    Consumed pos geometry input.length (mcuRound c input p) := by
  obtain ⟨hsize, herror⟩ := hsound
  have hkeeps := countMcu_keeps (σ := σ) (nextMcu c input p).bDecoded
  have hpos := h.pos
  unfold JpegFix.mcuRound
  dsimp only
  by_cases hpast : input.length < p.used + (nextMcu c input p).nBytes
  · -- this is the first MCU of the call, since the others have had room
    have hfirst : p.used = 0 := by lia
    rw [if_pos hpast]
    refine ⟨(hkeeps _).1.trans h.geometry, Nat.le_refl _, (hkeeps _).2.trans ?_, h.done,
      h.fatalError⟩
    rw [behind, dwordSub]
    dsimp only
    lia
  · have hnone : ¬ (nextMcu c input p).iErrorCode ≠ 0 := fun he => hpast (herror he)
    rw [if_neg hpast, if_neg hnone]
    refine ⟨(hkeeps _).1.trans h.geometry, Nat.not_lt.mp hpast, (hkeeps _).2.trans ?_, h.done,
      h.fatalError⟩
    rw [behind]
    dsimp only
    lia

theorem Consumed.mcuLoop {n : Nat} {p : Parse σ} (h : Consumed pos geometry input.length p)
    (hsound : AllSound c input n p)
    (hfits : p.used = 0 ∨ p.used + maxMcuSize ≤ input.length) :
    Consumed pos geometry input.length (mcuLoop c input n p) := by
  induction n generalizing p with
  | zero => exact h.mcuRound hsound hfits
  | succ n ih =>
    have hround := h.mcuRound hsound.1 hfits
    rw [JpegFix.mcuLoop]
    by_cases hgoes : goesOn input (JpegFix.mcuRound c input p) = true
    · rw [if_pos hgoes]
      have hroom : maxMcuSize ≤ input.length - (JpegFix.mcuRound c input p).used :=
        of_decide_eq_true (Bool.and_eq_true_iff.mp hgoes).2
      refine ih hround (hsound.2 hgoes) (.inr ?_)
      have hused := hround.used
      lia
    · rw [if_neg hgoes]
      exact hround

theorem Consumed.sendRow {p : Parse σ} (h : Consumed pos geometry limit p) :
    Consumed pos geometry limit (sendRow c p).1 := by
  unfold JpegFix.sendRow
  split_ifs
  · exact ⟨h.geometry, h.used, h.pos, h.done, h.fatalError⟩
  · exact ⟨h.geometry, h.used, h.pos, h.done, h.fatalError⟩
  · exact h

theorem decodeConvert_sends {s : Decoding σ} (hsends : s.sendingRows = true)
    (input : Option (List UInt8)) :
    decodeConvert c s input = sendRow c ⟨s, 0, ready⟩ := by
  rw [decodeConvert, if_pos hsends]
  rfl

theorem decodeConvert_flush {s : Decoding σ} (hsends : s.sendingRows = false) :
    decodeConvert c s none = (⟨s, 0, { ready with done := true, inputError := !s.gotEOI }⟩, []) := by
  have hnot : ¬ s.sendingRows = true := Bool.eq_false_iff.mp hsends
  rw [decodeConvert, if_neg hnot, parseInput]
  show sendRow c _ = _
  rw [sendRow, if_neg hnot]

theorem decodeConvert_consumes {s : Decoding σ} (hpos : s.dwInNextPos < 2 ^ 32)
    (h : s.sendingRows = false → s.gotEOI = false
      ∧ AllSound c input (s.geometry.mcusPerRow - s.mcusDone) ⟨s, 0, ready⟩) :
    Consumed s.dwInNextPos s.geometry input.length (decodeConvert c s (some input)).1 := by
  have hstart : Consumed s.dwInNextPos s.geometry input.length ⟨s, 0, ready⟩ :=
    ⟨rfl, Nat.zero_le _, (Nat.mod_eq_of_lt hpos).symm, rfl, rfl⟩
  cases hsends : s.sendingRows with
  | true =>
    rw [decodeConvert_sends hsends]
    exact hstart.sendRow
  | false =>
    obtain ⟨heoi, hsound⟩ := h hsends
    have hloop := hstart.mcuLoop hsound (.inl rfl)
    rw [decodeConvert, if_neg (Bool.eq_false_iff.mp hsends), parseInput,
      if_neg (Bool.eq_false_iff.mp heoi), if_neg (Bool.eq_false_iff.mp hloop.fatalError)]
    exact hloop.sendRow

def rowsLeft (s : Decoding σ) : Nat :=
  if s.sendingRows then s.geometry.rowsPerMcu - s.rowsDone % s.geometry.rowsPerMcu else 0

theorem rowsLeft_sendRow {s : Decoding σ} (hsends : s.sendingRows = true) :
    rowsLeft (sendRow c ⟨s, 0, ready⟩).1.s < rowsLeft s := by
  have hlt := Nat.mod_lt s.rowsDone s.geometry.rowsPerMcu_pos
  have hleft : 0 < rowsLeft s := by
    rw [rowsLeft, if_pos hsends]
    lia
  rw [sendRow, if_pos hsends]
  by_cases hall : allSent s s.rowsDone = true
  · rw [if_pos hall]
    exact hleft
  · rw [if_neg hall]
    dsimp only
    rw [rowsLeft]
    dsimp only
    split_ifs with hmore
    · -- the next row is in the same MCU
      have hne : (s.rowsDone + 1) % s.geometry.rowsPerMcu ≠ 0 := by
        simpa using (Bool.and_eq_true_iff.mp hmore).2
      have hnext : (s.rowsDone + 1) % s.geometry.rowsPerMcu
          = s.rowsDone % s.geometry.rowsPerMcu + 1 := by
        have hmod := Nat.mod_add_mod s.rowsDone s.geometry.rowsPerMcu 1
        by_cases hlast : s.rowsDone % s.geometry.rowsPerMcu + 1 = s.geometry.rowsPerMcu
        · rw [hlast, Nat.mod_self] at hmod
          exact absurd hmod.symm hne
        · rw [← hmod]
          exact Nat.mod_eq_of_lt (by lia)
      rw [rowsLeft, if_pos hsends, hnext]
      lia
    · exact hleft

end Loop

/-! ## The run -/

section Run

variable {σ : Type} {c : Coder σ} {file hdr : List UInt8} {p0 : Nat} {geometry : Geometry}
  {s : Client σ} {a : Ask}

theorem Tiles.take_add {chunks : List Chunk} {whole bytes : List UInt8} {n k : Nat}
    (h : Tiles chunks (whole.take n)) (hn : n ≤ whole.length)
    (hbytes : bytes = (whole.drop n).take k) :
    Tiles (chunks ++ [(n, bytes)]) (whole.take (n + k)) := by
  have hnext := h.snoc bytes
  rwa [List.length_take, Nat.min_eq_left hn, hbytes, ← List.take_add, ← hbytes] at hnext

theorem placed_concat (chunks : List Chunk) (chunk : Chunk) :
    placed (chunks ++ [chunk]) = place (placed chunks) chunk := List.foldl_concat ..

theorem Tiles.placed {chunks : List Chunk} {out : List UInt8} (h : Tiles chunks out) :
    placed chunks = out := by
  induction h with
  | nil => rfl
  | snoc bytes h ih => rw [placed_concat, ih, place]; simp

theorem bendGetShort_set {x : Nat} (h : x < 2 ^ 16) :
    bendGetShort (x / 256).toUInt8 x.toUInt8 = x := by
  rw [bendGetShort, Nat.toUInt8_eq, Nat.toUInt8_eq, UInt8.toNat_ofNat', UInt8.toNat_ofNat']
  lia

/-- What holds before every call: the whole has been sent up to `outNextPos`; the positions in the
input are as far. -/
structure Inv (file hdr : List UInt8) (p0 : Nat) (geometry : Geometry) (s : Client σ) : Prop where
  running : s.status = .running
  readyForSofRewrite : s.g.readyForSofRewrite = 0
  geometry : s.g.slave.geometry = geometry
  lenHeader : s.g.lenHeader = hdr.length
  back : ∀ k, hdr.length + k < 2 ^ 32 → dwordSub (hdr.length + k) s.g.lenAddedHeader = p0 + k
  sent : s.g.outNextPos ≤ (hdr ++ file.drop p0).length
  tiles : Tiles s.chunks ((hdr ++ file.drop p0).take s.g.outNextPos)
  saved : s.g.outNextPos < hdr.length → s.g.headerBuffer.take hdr.length = hdr
  inPos : s.g.slave.dwInNextPos = hdr.length + (s.g.outNextPos - hdr.length)
  nextPos : s.nextPos = p0 + (s.g.outNextPos - hdr.length)

structure Finished (file hdr : List UInt8) (p0 : Nat) (geometry : Geometry) (s : Client σ) :
    Prop where
  done : s.status = .done
  rows : s.g.slave.rowsDone < 2 ^ 16
  chunks : ∃ data, Tiles data (hdr ++ file.drop p0)
    ∧ s.chunks = data ++ [(geometry.rowCountOffset, bendSetShort s.g.slave.rowsDone)]

theorem step_eq (hrun : s.status = .running) {r : Call σ}
    (hcall : convert c s.g (offered file s a) a.outputAvail = some r) :
    step c file s a = ⟨r.g, r.inputNextPos, s.chunks ++ [(r.outputThisPos, r.output)],
      if r.fatalError then .failed else if r.done then .done else .running⟩ := by
  rw [step, if_pos hrun, hcall]

theorem Inv.header (h : Inv file hdr p0 geometry s)
    (hsize : (hdr ++ file.drop p0).length < 2 ^ 32) (hhdr : s.g.outNextPos < hdr.length) :
    Inv file hdr p0 geometry (step c file s a)
      ∧ (step c file s a).g.slave = s.g.slave
      ∧ (step c file s a).g.outNextPos
        = s.g.outNextPos + min (hdr.length - s.g.outNextPos) a.outputAvail := by
  have hcall : convert c s.g (offered file s a) a.outputAvail = some ⟨{ s.g with
      outNextPos := s.g.outNextPos + min (hdr.length - s.g.outNextPos) a.outputAvail }, false,
      false, dwordSub hdr.length s.g.lenAddedHeader, (s.g.headerBuffer.drop s.g.outNextPos).take
        (min (hdr.length - s.g.outNextPos) a.outputAvail), s.g.outNextPos⟩ := by
    rw [convert, h.lenHeader, if_pos hhdr, ← h.lenHeader]
  rw [step_eq h.running hcall]
  refine ⟨?_, rfl, rfl⟩
  have hle : s.g.outNextPos + min (hdr.length - s.g.outNextPos) a.outputAvail ≤ hdr.length := by
    lia
  have hinPos := h.inPos
  have hsaved : hdr.drop s.g.outNextPos
      = (s.g.headerBuffer.drop s.g.outNextPos).take (hdr.length - s.g.outNextPos) := by
    rw [← List.drop_take, h.saved hhdr]
  refine ⟨rfl, h.readyForSofRewrite, h.geometry, h.lenHeader, h.back, ?_,
    h.tiles.take_add h.sent ?_, fun _ => h.saved hhdr, ?_, ?_⟩
  · rw [List.length_append]
    exact Nat.le_trans hle (Nat.le_add_right _ _)
  · rw [List.drop_append_of_le_length (by lia), List.take_append_of_le_length
      (by rw [List.length_drop]; lia), hsaved, List.take_take,
      Nat.min_eq_left (Nat.min_le_left _ _)]
  · dsimp only
    lia
  · rw [List.length_append] at hsize
    have hback := h.back 0 (by lia)
    rw [Nat.add_zero] at hback
    dsimp only
    rw [hback]
    lia

theorem Inv.scan {limit : Nat} (h : Inv file hdr p0 geometry s)
    (hsize : (hdr ++ file.drop p0).length < 2 ^ 32) (hhdr : hdr.length ≤ s.g.outNextPos)
    (hconsumed : Consumed s.g.slave.dwInNextPos geometry limit
      (decodeConvert c s.g.slave (offered file s a)).1)
    (hlimit : s.g.outNextPos + limit ≤ (hdr ++ file.drop p0).length)
    (havail : limit ≤ a.outputAvail)
    (hbytes : ∀ k, k ≤ limit → ((offered file s a).getD []).take k
      = ((hdr ++ file.drop p0).drop s.g.outNextPos).take k) :
    Inv file hdr p0 geometry (step c file s a)
      ∧ (step c file s a).g.slave = (decodeConvert c s.g.slave (offered file s a)).1.s
      ∧ (step c file s a).g.outNextPos
        = s.g.outNextPos + (decodeConvert c s.g.slave (offered file s a)).1.used := by
  generalize hd : decodeConvert c s.g.slave (offered file s a) = d at hconsumed ⊢
  have hused := hconsumed.used
  have hin := h.inPos
  have hmod : (s.g.outNextPos + d.1.used) % 2 ^ 32 = s.g.outNextPos + d.1.used :=
    Nat.mod_eq_of_lt (by lia)
  have hpos : d.1.s.dwInNextPos = hdr.length + (s.g.outNextPos + d.1.used - hdr.length) := by
    rw [hconsumed.pos]
    lia
  have hcall : convert c s.g (offered file s a) a.outputAvail = some ⟨{ s.g with
      slave := d.1.s
      headerBuffer := d.2 ++ s.g.headerBuffer.drop d.2.length
      readyForSofRewrite := 0
      outNextPos := s.g.outNextPos + d.1.used }, false, false,
      dwordSub d.1.s.dwInNextPos s.g.lenAddedHeader, ((offered file s a).getD []).take d.1.used,
      s.g.outNextPos⟩ := by
    rw [convert, if_neg (by rw [h.lenHeader]; exact Nat.not_lt.mpr hhdr),
      if_pos h.readyForSofRewrite, scanData, hd]
    dsimp only
    rw [hconsumed.done, hconsumed.fatalError, if_neg (fun hend => Bool.false_ne_true hend.1),
      if_neg (by lia), hmod]
    rfl
  rw [step_eq h.running hcall]
  refine ⟨?_, rfl, rfl⟩
  refine ⟨rfl, rfl, hconsumed.geometry, h.lenHeader, h.back, ?_,
    h.tiles.take_add h.sent (hbytes _ hused), fun hlt => ?_, hpos, ?_⟩
  · exact Nat.le_trans (Nat.add_le_add_left hused _) hlimit
  · exact absurd hlt (Nat.not_lt.mpr (Nat.le_trans hhdr (Nat.le_add_right _ _)))
  · show dwordSub d.1.s.dwInNextPos s.g.lenAddedHeader = _
    rw [hpos]
    exact h.back _ (by lia)

def left (s : Client σ) : Nat := s.g.lenHeader - s.g.outNextPos + rowsLeft s.g.slave

theorem Inv.finish (h : Inv file hdr p0 geometry s) (hhdr : hdr.length ≤ s.g.outNextPos)
    (hend : file.length ≤ s.nextPos) (hsends : s.g.slave.sendingRows = false)
    (hroom : 2 ≤ a.outputAvail) (hrows : s.g.slave.rowsDone < 2 ^ 16) : Finished file hdr p0 geometry (step c file s a) := by
  have hnone : offered file s a = none := if_pos hend
  have hcall : convert c s.g (offered file s a) a.outputAvail = some ⟨{ s.g with
      readyForSofRewrite := 2 ^ 32 - 1 }, true, false,
      dwordSub s.g.outNextPos s.g.lenAddedHeader, bendSetShort s.g.slave.rowsDone,
      s.g.slave.geometry.rowCountOffset⟩ := by
    rw [convert, if_neg (by rw [h.lenHeader]; exact Nat.not_lt.mpr hhdr),
      if_pos h.readyForSofRewrite, hnone, scanData, decodeConvert_flush hsends]
    exact if_neg (Nat.not_lt.mpr hroom)
  rw [step_eq h.running hcall]
  have hwhole : (hdr ++ file.drop p0).take s.g.outNextPos = hdr ++ file.drop p0 := by
    have hnext := h.nextPos
    refine List.take_of_length_le ?_
    rw [List.length_append, List.length_drop]
    lia
  exact ⟨rfl, hrows, s.chunks, hwhole ▸ h.tiles, by rw [h.geometry]⟩

theorem Inv.next (h : Inv file hdr p0 geometry s)
    (hsize : (hdr ++ file.drop p0).length < 2 ^ 32) (hp0 : p0 ≤ file.length)
    (hroom : Roomy file s a)
    (hmeets : s.status = .running → Meets c s a (offered file s a)) :
    Finished file hdr p0 geometry (step c file s a)
      ∨ Inv file hdr p0 geometry (step c file s a) ∧ (file.length ≤ s.nextPos →
        file.length ≤ (step c file s a).nextPos ∧ left (step c file s a) < left s) := by
  have hmeets := hmeets h.running
  have hnext := h.nextPos
  have hlength : (hdr ++ file.drop p0).length = hdr.length + (file.length - p0) := by
    rw [List.length_append, List.length_drop]
  by_cases hhdr : s.g.outNextPos < hdr.length
  · right
    obtain ⟨hinv, hslave, hpos⟩ := h.header (c := c) (a := a) hsize hhdr
    refine ⟨hinv, fun hend => ?_⟩
    have hnone : offered file s a = none := if_pos hend
    rw [hnone] at hmeets
    have htwo : 2 ≤ a.outputAvail := hmeets.1
    rw [hinv.nextPos, left, left, hinv.lenHeader, h.lenHeader, hslave, hpos]
    lia
  have hhdr := Nat.not_lt.mp hhdr
  have hinPos : s.g.slave.dwInNextPos < 2 ^ 32 := by
    have hpos := h.inPos
    have hsent := h.sent
    lia
  by_cases hend : file.length ≤ s.nextPos
  · have hnone : offered file s a = none := if_pos hend
    rw [hnone] at hmeets
    cases hsends : s.g.slave.sendingRows with
    | false => exact .inl (h.finish hhdr hend hsends hmeets.1 hmeets.2)
    | true =>
      right
      have hready : Consumed s.g.slave.dwInNextPos geometry 0 ⟨s.g.slave, 0, ready⟩ :=
        ⟨h.geometry, Nat.le_refl 0, (Nat.mod_eq_of_lt hinPos).symm, rfl, rfl⟩
      have hsent := hready.sendRow (c := c)
      rw [← decodeConvert_sends hsends (offered file s a)] at hsent
      obtain ⟨hinv, hslave, hpos⟩ := h.scan hsize hhdr hsent h.sent (Nat.zero_le _)
        fun k hk => by rw [Nat.le_zero.mp hk, List.take_zero, List.take_zero]
      refine ⟨hinv, fun _ => ?_⟩
      have hrow := rowsLeft_sendRow (c := c) hsends
      have hused := hsent.used
      rw [decodeConvert_sends hsends] at hslave hpos hused
      rw [hinv.nextPos, left, left, hinv.lenHeader, h.lenHeader, hslave, hpos]
      lia
  · -- what is offered are the bytes that come next
    have hsome : offered file s a = some ((file.drop s.nextPos).take a.inputLen) := if_neg hend
    have hdrop : (hdr ++ file.drop p0).drop s.g.outNextPos = file.drop s.nextPos := by
      rw [List.drop_append, List.drop_eq_nil_of_le hhdr, List.nil_append, List.drop_drop, hnext]
    have hlen : ((file.drop s.nextPos).take a.inputLen).length
        = min a.inputLen (file.length - s.nextPos) := by
      rw [List.length_take, List.length_drop]
    rw [hsome] at hmeets
    have hused := decodeConvert_consumes hinPos (hmeets (h.lenHeader ▸ hhdr))
    rw [h.geometry, ← hsome] at hused
    rw [Roomy, hsome] at hroom
    refine .inr ⟨(h.scan hsize hhdr hused (by lia) hroom fun k hk => ?_).1,
      fun hend' => absurd hend' hend⟩
    rw [hsome, hdrop]
    show (List.take _ _).take k = _
    rw [List.take_take, Nat.min_eq_left (by lia)]

theorem run_cons (a : Ask) (asks : List Ask) :
    run c file s (a :: asks) = run c file (step c file s a) asks := rfl

theorem Finished.stays (h : Finished file hdr p0 geometry s) (asks : List Ask) :
    run c file s asks = s := by
  induction asks with
  | nil => rfl
  | cons a asks ih =>
    have hstep : step c file s a = s := if_neg (by rw [h.done]; decide)
    rw [run_cons, hstep, ih]

theorem Inv.reaches {asks : List Ask} (h : Inv file hdr p0 geometry s)
    (hsize : (hdr ++ file.drop p0).length < 2 ^ 32) (hp0 : p0 ≤ file.length)
    (hasks : AllMeet c file s asks) :
    Inv file hdr p0 geometry (run c file s asks)
      ∨ Finished file hdr p0 geometry (run c file s asks) := by
  induction asks generalizing s with
  | nil => exact .inl h
  | cons a asks ih =>
    rw [run_cons]
    rcases h.next hsize hp0 hasks.1.1 hasks.1.2 with hdone | ⟨hinv, -⟩
    · right
      rwa [hdone.stays]
    · exact ih hinv hasks.2

theorem Inv.ends {asks : List Ask} (h : Inv file hdr p0 geometry s)
    (hsize : (hdr ++ file.drop p0).length < 2 ^ 32) (hp0 : p0 ≤ file.length)
    (hend : file.length ≤ s.nextPos) (hasks : AllMeet c file s asks)
    (hlen : left s < asks.length) : Finished file hdr p0 geometry (run c file s asks) := by
  induction asks generalizing s with
  | nil => exact absurd hlen (Nat.not_lt_zero _)
  | cons a asks ih =>
    rw [run_cons]
    rcases h.next hsize hp0 hasks.1.1 hasks.1.2 with hdone | ⟨hinv, hflush⟩
    · rwa [hdone.stays]
    · obtain ⟨hend', hless⟩ := hflush hend
      refine ih hinv hend' hasks.2 ?_
      rw [List.length_cons] at hlen
      lia

theorem AllMeet.of_append {as bs : List Ask} (h : AllMeet c file s (as ++ bs)) :
    AllMeet c file s as ∧ AllMeet c file (run c file s as) bs := by
  induction as generalizing s with
  | nil => exact ⟨trivial, h⟩
  | cons a as ih => exact ⟨⟨h.1, (ih h.2).1⟩, (ih h.2).2⟩

theorem Inv.fixes (h : Inv file hdr p0 geometry s) :
    Fixes (hdr ++ file.drop p0) geometry.rowCountOffset s where
  status := .inl h.running
  running _ := ⟨_, h.tiles, List.take_prefix _ _⟩
  done hdone := by rw [h.running] at hdone; cases hdone

theorem Finished.fixes (h : Finished file hdr p0 geometry s) :
    Fixes (hdr ++ file.drop p0) geometry.rowCountOffset s where
  status := .inr h.done
  running hrun := by rw [h.done] at hrun; cases hrun
  done _ := by
    obtain ⟨data, htiles, hchunks⟩ := h.chunks
    refine ⟨data, _, _, hchunks, htiles, ?_, bendGetShort_set h.rows⟩
    rw [hchunks, placed_concat, htiles.placed]
    rfl

theorem of_getActualTraits {shiftBack : Nat → Nat → Nat} {slave : Slave}
    {input headerBuffer : List UInt8} {inputUsed inputNextPos : Nat}
    (h : getActualTraits shiftBack slave input = .done headerBuffer inputUsed inputNextPos) :
    ∃ len used nextPos, lenRemovedHeader input + len ≤ input.length
      ∧ headerBuffer = header shiftBack input ++ (input.drop (lenRemovedHeader input)).take len
      ∧ slave headerBuffer = some (used, nextPos)
      ∧ inputNextPos = dwordSub nextPos
        (dwordSub (header shiftBack input).length (lenRemovedHeader input)) := by
  unfold getActualTraits at h
  dsimp only at h
  split_ifs at h with houtside
  revert h
  cases hs : slave (header shiftBack input ++ (input.drop (lenRemovedHeader input)).take
      (copyLen (header shiftBack input).length input)) with
  | none => rintro ⟨⟩
  | some r =>
    intro h
    obtain ⟨rfl, -, rfl⟩ := Reply.done.inj h
    exact ⟨_, r.1, r.2, by lia, rfl, hs, rfl⟩

theorem of_start {shiftBack : Nat → Nat → Nat} {parse : HeaderParser σ} {input : List UInt8}
    (h : start shiftBack parse input = some s) :
    ∃ headerBuffer inputUsed inputNextPos, ∃ hd : Header σ headerBuffer,
      getActualTraits shiftBack (slaveOf parse) input = .done headerBuffer inputUsed inputNextPos
        ∧ parse headerBuffer = some hd
        ∧ s = ⟨⟨hd.decoding, headerBuffer, 0, hd.used,
          dwordSub (header shiftBack input).length (lenRemovedHeader input), 0⟩,
          inputNextPos, [], .running⟩ := by
  rw [start] at h
  generalize hreply : getActualTraits shiftBack (slaveOf parse) input = reply at h
  cases reply with
  | outside => cases h
  | failed => cases h
  | done headerBuffer inputUsed inputNextPos =>
    obtain ⟨hd, hparsed, rfl⟩ := Option.map_eq_some_iff.mp h
    exact ⟨headerBuffer, inputUsed, inputNextPos, hd, rfl, hparsed, rfl⟩

theorem grown_le {shiftBack : Nat → Nat → Nat} {slave : Slave} (hslave : IsDecoder shiftBack slave)
    {input : List UInt8} {len used : Nat} (hlen : lenRemovedHeader input + len ≤ input.length)
    (hrun : slave (header shiftBack input ++ (input.drop (lenRemovedHeader input)).take len)
      = some (used, used))
    (hused : used ≤ (header shiftBack input).length + len) :
    dwordSub (header shiftBack input).length (lenRemovedHeader input) ≤ used
      ∧ used ≤ dwordSub (header shiftBack input).length (lenRemovedHeader input)
        + input.length := by
  by_cases hshort : IsShort input
  · have hremoved : lenRemovedHeader input = lenShortHeader := if_pos hshort
    have hbounds := headerSize_bounds input
    obtain ⟨rfl, -⟩ := Prod.mk.inj (hslave.stops _ _ _ hshort hrun)
    rw [hremoved] at hlen ⊢
    rw [length_header hshort, dwordSub]
    lia
  · have hheader : header shiftBack input = [] := if_neg hshort
    have hremoved : lenRemovedHeader input = 0 := if_neg hshort
    have hzero : dwordSub 0 0 = 0 := by decide
    rw [hremoved] at hlen ⊢
    rw [hheader, List.length_nil] at hused ⊢
    rw [hzero]
    lia

theorem start_inv {shiftBack : Nat → Nat → Nat} {parse : HeaderParser σ}
    (hparse : IsDecoder shiftBack (slaveOf parse)) {k : Nat}
    (hstart : start shiftBack parse (file.take k) = some s) :
    Inv file (s.g.headerBuffer.take s.g.lenHeader) s.nextPos s.g.slave.geometry s
      ∧ s.nextPos ≤ file.length ∧ s.g.lenHeader ≤ s.g.headerBuffer.length := by
  obtain ⟨headerBuffer, inputUsed, inputNextPos, hd, hreply, hparsed, rfl⟩ := of_start hstart
  obtain ⟨len, used, nextPos, hlen, hbuffer, hslave, hnext⟩ := of_getActualTraits hreply
  have hrun : slaveOf parse headerBuffer = some (hd.used, hd.used) := by
    rw [slaveOf, hparsed, Option.map_some]
  obtain ⟨rfl, rfl⟩ := Prod.mk.inj (Option.some.inj (hrun.symm.trans hslave))
  have hdword := (hparse.dword _ _ hrun).1
  have hle := hd.used_le
  have hused : hd.used ≤ (header shiftBack (file.take k)).length + len := by
    have hlength := congrArg List.length hbuffer
    rw [List.length_append, List.length_take] at hlength
    lia
  obtain ⟨hgrown, hinside⟩ := grown_le hparse hlen (hbuffer ▸ hrun) hused
  generalize hn : dwordSub (header shiftBack (file.take k)).length
    (lenRemovedHeader (file.take k)) = n at hgrown hinside hnext ⊢
  have hpos : inputNextPos = hd.used - n := by
    rw [hnext, dwordSub]
    lia
  have hfile : (file.take k).length ≤ file.length := by
    rw [List.length_take]
    exact Nat.min_le_right _ _
  have hlength : (headerBuffer.take hd.used).length = hd.used := by
    rw [List.length_take, Nat.min_eq_left hle]
  refine ⟨?_, by dsimp only; lia, hle⟩
  refine ⟨rfl, rfl, rfl, hlength.symm, fun j hj => ?_, Nat.zero_le _, ?_, fun _ => ?_, ?_, ?_⟩
  · rw [hlength] at hj ⊢
    dsimp only
    rw [hpos, dwordSub]
    lia
  · exact Tiles.nil
  · rw [hlength]
  · exact (Nat.zero_sub _).symm ▸ hlength.symm
  · exact (Nat.zero_sub _).symm ▸ rfl

end Run

def greyHeader : List UInt8 :=
  [0xff, 0xd8, 0xff, 0xdb, 0, 67, 0] ++ List.replicate 64 1
    ++ [0xff, 0xc0, 0, 11, 8, 0, 8, 0, 8, 1, 0, 0x11, 0]
    ++ [0xff, 0xc4, 0, 20, 0x00, 1] ++ List.replicate 16 0
    ++ [0xff, 0xc4, 0, 20, 0x10, 1] ++ List.replicate 16 0
    ++ [0xff, 0xda, 0, 8, 1, 0, 0, 0, 63, 0]

def greyData : List UInt8 := [0x3f, 0xff, 0xd9]

theorem greyRows_pos : 0 < 8 := by decide

def greyParser : HeaderParser Unit := fun buf =>
  if h : greyHeader <+: buf then
    some ⟨(), ⟨1, 8, 76, greyRows_pos⟩, 8, greyHeader.length, h.length_le⟩
  else none

def greyCoder : Coder Unit where
  decodeMcu _ buf :=
    if greyData <+: buf then ⟨(), 3, true, true, 8, 0, .inl rfl⟩
    else ⟨(), buf.length + 1, false, false, 8, 1, .inr (.inr Nat.one_ne_zero)⟩
  copyOutRows _ _ := List.replicate 8 128

theorem greyParser_isDecoder (shiftBack : Nat → Nat → Nat) :
    IsDecoder shiftBack (slaveOf greyParser) := by
  have hnone : ∀ input rest, IsShort input →
      slaveOf greyParser (header shiftBack input ++ rest) = none := by
    intro input rest hshort
    have hother : ¬ greyHeader <+: header shiftBack input ++ rest := by
      rintro ⟨t, ht⟩
      rw [header, if_pos hshort] at ht
      have hbyte : (0xdb : UInt8) = 0xe0 := congrArg (fun l => l.getD 3 0) ht
      exact absurd hbyte (by decide)
    rw [slaveOf, greyParser, dif_neg hother]
    rfl
  refine ⟨fun input rest hshort _ => hnone input rest hshort, fun input rest r hshort hrun => ?_,
    fun buf r hrun => ?_⟩
  · rw [hnone input rest hshort] at hrun
    cases hrun
  · obtain ⟨h, hparsed, rfl⟩ := Option.map_eq_some_iff.mp hrun
    rw [greyParser] at hparsed
    split_ifs at hparsed
    cases hparsed
    have hlt : greyHeader.length < 2 ^ 32 := by decide +kernel
    exact ⟨hlt, hlt⟩

/-- The client behind the header of this image, with what else there is of the file. -/
def greyClient (rest : List UInt8) : Client Unit :=
  ⟨⟨⟨(), ⟨1, 8, 76, greyRows_pos⟩, 138, 0, 0, false, false, 8⟩, greyHeader ++ rest, 0, 138, 0, 0⟩,
    138, [], .running⟩

end Hplip.Ip.JpegFix
