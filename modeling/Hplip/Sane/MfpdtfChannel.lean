import Hplip.Lib.CInt
import Hplip.Lib.Pieces
import Hplip.Sane.Mfpdtf

/-!
# MFPDTF blocks off a channel that pauses (mfpdtf.c, io.c)

`read_mfpdtf_block` reads the fixed header of a block and then the rest of it. The channel hands
out what has arrived, and a time-out ends a read early. The sizes are `int`s, and what is left of
the block after its header is computed with a `size_t`.
-/

namespace Hplip.Sane.MfpdtfChannel

open Pieces CInt
open Mfpdtf (le32 sizeofFixedHeader)

abbrev hpmudBufferSize : Nat := 16384

structure Channel where
  events : List (Event UInt8)
  solid : Solid events

structure Buffer where
  cells : Nat → UInt8
  size : Nat
  header_le : sizeofFixedHeader ≤ size
  isInt : size < 2 ^ 31

/-- `hpmud_read_channel`: what has arrived, up to `len` bytes; nothing is a time-out. -/
def readChannel (len : Nat) : List (Event UInt8) → List UInt8 × List (Event UInt8)
  | [] => ([], [])
  | .pause :: es => ([], es)
  | .piece p :: es => if len < p.length then (p.take len, .piece (p.drop len) :: es) else (p, es)

/-- `while (size > 0)`; there are no more rounds than bytes. -/
def readLoop : Nat → Nat → List (Event UInt8) → List UInt8 × List (Event UInt8)
  | 0, _, es => ([], es)
  | fuel + 1, size, es =>
    if 0 < size then
      let (bytes, es) := readChannel (min size hpmudBufferSize) es
      if bytes = [] then ([], es)
      else
        let (more, es) := readLoop fuel (size - bytes.length) es
        (bytes ++ more, es)
    else ([], es)

/-- `ReadChannelEx`: what was read, and what the channel has left. -/
def readChannelEx (length : Int) (es : List (Event UInt8)) : List UInt8 × List (Event UInt8) :=
  readLoop length.toNat length.toNat es

/-- What `read_mfpdtf_block` leaves; `written` is the number of bytes from the start of the
buffer that were written. -/
structure BlockRead where
  bsize : Int
  buf : Nat → UInt8
  written : Nat
  channel : List (Event UInt8)

/-- `le32toh(phd->BlockLength)`, as an `int`. -/
def blockLength (buf : Nat → UInt8) : Int :=
  ofDword (UInt32.ofNat (le32 (buf 0) (buf 1) (buf 2) (buf 3)))

def readMfpdtfBlock (buf : Nat → UInt8) (bufSize : Int) (es : List (Event UInt8)) : BlockRead :=
  let (header, es) := readChannelEx sizeofFixedHeader es
  let buf := blit buf 0 (ofList header 0) header.length
  if header.length ≠ sizeofFixedHeader then ⟨0, buf, header.length, es⟩
  else
    let bsize := blockLength buf
    if bufSize < bsize then ⟨-1, buf, header.length, es⟩
    else
      let size := wrapAdd bsize (-sizeofFixedHeader)
      let (rest, es) := readChannelEx size es
      let buf := blit buf sizeofFixedHeader (ofList rest 0) rest.length
      if (rest.length : Int) ≠ size then ⟨-1, buf, header.length + rest.length, es⟩
      else ⟨bsize, buf, header.length + rest.length, es⟩

def Channel.read (ch : Channel) (buf : Buffer) : BlockRead :=
  readMfpdtfBlock buf.cells buf.size ch.events

def bytes (es : List (Event UInt8)) : List UInt8 := elements (flat es)

/-- `BlockLength` of a header. -/
def headerLength (l : List UInt8) : Nat :=
  le32 (ofList l 0 0) (ofList l 0 1) (ofList l 0 2) (ofList l 0 3)

/-- The call stays inside the buffer, and if it returns a number that is no error, that many bytes
are what it took from the channel: none, or a block. -/
structure InStep (buf : Buffer) (ch : Channel) : Prop where
  written_le : (ch.read buf).written ≤ buf.size
  consumed : 0 ≤ (ch.read buf).bsize → ∃ block, bytes ch.events = block ++ bytes (ch.read buf).channel
    ∧ (block.length : Int) = (ch.read buf).bsize ∧ (block = [] ∨ headerLength block = block.length)

def Channel.ready (ch : Channel) : List UInt8 := Pieces.ready (flat ch.events)

/-- What comes before a time-out is nothing, or a header at least, and if that has a length from
`2 ^ 31` to `2 ^ 31 + 7`, no more comes than fits. -/
def Fits (buf : Buffer) (ch : Channel) : Prop :=
  ch.ready = [] ∨ sizeofFixedHeader ≤ ch.ready.length ∧
    (2 ^ 31 ≤ headerLength ch.ready → headerLength ch.ready < 2 ^ 31 + sizeofFixedHeader →
      ch.ready.length ≤ buf.size)

/-! ## Reading -/

theorem readChannel_solid {es : List (Event UInt8)} (h : Solid es) (len : Nat) :
    Solid (readChannel len es).2 := by
  cases es with
  | nil => exact h
  | cons e es =>
    cases e with
    | pause => exact h.of_cons
    | piece p =>
      rw [readChannel]
      by_cases hlen : len < p.length
      · rw [if_pos hlen]
        intro q hq
        rcases List.mem_cons.mp hq with heq | hmem
        · cases heq
          exact List.ne_nil_of_length_pos (by rw [List.length_drop]; lia)
        · exact h.of_cons q hmem
      · rw [if_neg hlen]
        exact h.of_cons

theorem readChannel_cases {es : List (Event UInt8)} (h : Solid es) {len : Nat} (hlen : 0 < len) :
    (readChannel len es).1 ≠ [] ∧ (readChannel len es).1.length ≤ len ∧
        flat es = (readChannel len es).1.map some ++ flat (readChannel len es).2
      ∨ (readChannel len es).1 = [] ∧
        ∀ n, 0 < n → pullFlat (flat es) n = ([], flat (readChannel len es).2) := by
  cases es with
  | nil => exact .inr ⟨rfl, fun n _ => pullFlat_nil n⟩
  | cons e es =>
    cases e with
    | pause =>
      refine .inr ⟨rfl, fun n hn => ?_⟩
      obtain ⟨n, rfl⟩ := Nat.exists_eq_succ_of_ne_zero (Nat.pos_iff_ne_zero.mp hn)
      rfl
    | piece p =>
      have hp : p ≠ [] := h p List.mem_cons_self
      left
      rw [readChannel]
      by_cases hshort : len < p.length
      · rw [if_pos hshort]
        refine ⟨?_, List.length_take_le _ _, ?_⟩
        · simpa [hp] using Nat.pos_iff_ne_zero.mp hlen
        · rw [flat, flat, ← List.append_assoc, ← List.map_append, List.take_append_drop]
      · rw [if_neg hshort]
        exact ⟨hp, Nat.not_lt.mp hshort, rfl⟩

theorem readLoop_eq (fuel : Nat) {size : Nat} (hfuel : size ≤ fuel) {es : List (Event UInt8)}
    (h : Solid es) : (readLoop fuel size es).1 = (pullFlat (flat es) size).1 ∧
      flat (readLoop fuel size es).2 = (pullFlat (flat es) size).2 ∧
      Solid (readLoop fuel size es).2 := by
  induction fuel generalizing size es with
  | zero =>
    rw [Nat.le_zero.mp hfuel, pullFlat_zero]
    exact ⟨rfl, rfl, h⟩
  | succ fuel ih =>
    by_cases hsize : 0 < size
    · have hlen : 0 < min size hpmudBufferSize := Nat.lt_min.mpr ⟨hsize, Nat.zero_lt_succ _⟩
      have hsolid := readChannel_solid h (min size hpmudBufferSize)
      have hcases := readChannel_cases h hlen
      rw [readLoop, if_pos hsize]
      generalize readChannel (min size hpmudBufferSize) es = r at hsolid hcases
      obtain ⟨q, es'⟩ := r
      dsimp only at hsolid hcases ⊢
      rcases hcases with ⟨hq, hle, hflat⟩ | ⟨rfl, hpull⟩
      · have hshort : ¬ size < q.length := by lia
        have hqpos := List.length_pos_iff.mpr hq
        obtain ⟨hbytes, hrest, hsolid'⟩ := @ih (size - q.length) (by lia) _ hsolid
        rw [if_neg hq, hflat, pullFlat_some_append, if_neg hshort]
        exact ⟨congrArg (q ++ ·) hbytes, hrest, hsolid'⟩
      · rw [if_pos rfl, hpull size hsize]
        exact ⟨rfl, rfl, hsolid⟩
    · rw [readLoop, if_neg hsize, Nat.eq_zero_of_not_pos hsize, pullFlat_zero]
      exact ⟨rfl, rfl, h⟩

theorem readChannelEx_fst (length : Int) {es : List (Event UInt8)} (h : Solid es) :
    (readChannelEx length es).1 = (Pieces.ready (flat es)).take length.toNat := by
  rw [readChannelEx, (readLoop_eq _ (Nat.le_refl _) h).1, pullFlat_eq_take]

theorem readChannelEx_solid (length : Int) {es : List (Event UInt8)} (h : Solid es) :
    Solid (readChannelEx length es).2 := (readLoop_eq _ (Nat.le_refl _) h).2.2

theorem bytes_readChannelEx (length : Int) {es : List (Event UInt8)} (h : Solid es) :
    bytes es = (readChannelEx length es).1 ++ bytes (readChannelEx length es).2 := by
  obtain ⟨hbytes, hrest, -⟩ := readLoop_eq _ (Nat.le_refl length.toNat) h
  rw [bytes, bytes, readChannelEx, hbytes, hrest]
  exact elements_pullFlat _ _

theorem ready_readChannelEx {length : Int} {es : List (Event UInt8)} (h : Solid es)
    (hlength : length.toNat ≤ (Pieces.ready (flat es)).length) :
    Pieces.ready (flat (readChannelEx length es).2)
      = (Pieces.ready (flat es)).drop length.toNat := by
  rw [readChannelEx, (readLoop_eq _ (Nat.le_refl _) h).2.1, ready_pullFlat hlength]

/-! ## The length of a block -/

/-- `bsize`, for what the header says. -/
def signed (n : Nat) : Int := ofDword (UInt32.ofNat n)

/-- `size`, for what the header says. -/
def restLength (n : Nat) : Int := wrapAdd (signed n) (-sizeofFixedHeader)

theorem signed_eq {n : Nat} (h : n < 2 ^ 32) :
    signed n = if n < 2 ^ 31 then (n : Int) else n - 2 ^ 32 := by
  rw [signed, ofDword, UInt32.toNat_ofNat_of_lt' h]

theorem restLength_eq {n : Nat} (h : n < 2 ^ 31 ∨ 2 ^ 31 + sizeofFixedHeader ≤ n)
    (hword : n < 2 ^ 32) : restLength n = signed n - sizeofFixedHeader := by
  have hsigned := signed_eq hword
  have hheader : sizeofFixedHeader = 8 := rfl
  refine wrapAdd_eq ?_
  by_cases hsmall : n < 2 ^ 31
  · rw [if_pos hsmall] at hsigned
    constructor <;> lia
  · rw [if_neg hsmall] at hsigned
    constructor <;> lia

theorem restLength_wraps {n : Nat} (hlow : 2 ^ 31 ≤ n) (hhigh : n < 2 ^ 31 + sizeofFixedHeader) :
    restLength n = n - sizeofFixedHeader := by
  have hheader : sizeofFixedHeader = 8 := rfl
  have hsigned := signed_eq (n := n) (by lia)
  rw [if_neg (Nat.not_lt.mpr hlow)] at hsigned
  have hword : toDword (signed n + -sizeofFixedHeader) = toDword ((n : Int) - sizeofFixedHeader) := by
    rw [toDword, toDword]
    congr 2
    lia
  rw [restLength, wrapAdd, hword]
  exact ofDword_toDword ⟨by lia, by lia⟩

theorem headerLength_lt (l : List UInt8) : headerLength l < 2 ^ 32 := by
  have hbyte : ∀ b : UInt8, b.toNat < 256 := fun b => b.toNat_lt
  have h0 := hbyte (ofList l 0 0)
  have h1 := hbyte (ofList l 0 1)
  have h2 := hbyte (ofList l 0 2)
  have h3 := hbyte (ofList l 0 3)
  simp only [headerLength, le32, Mfpdtf.le16]
  lia

theorem ofList_append {l : List UInt8} {i : Nat} (h : i < l.length) (m : List UInt8) :
    ofList (l ++ m) 0 i = ofList l 0 i := by
  rw [ofList, ofList, List.getD_eq_getElem?_getD, List.getD_eq_getElem?_getD,
    List.getElem?_append_left h]

theorem headerLength_append {l : List UInt8} (h : l.length = sizeofFixedHeader) (m : List UInt8) :
    headerLength (l ++ m) = headerLength l := by
  have hcell : ∀ i < 4, ofList (l ++ m) 0 i = ofList l 0 i :=
    fun i hi => ofList_append (h ▸ Nat.lt_trans hi (by decide)) m
  rw [headerLength, hcell 0 (by decide), hcell 1 (by decide), hcell 2 (by decide),
    hcell 3 (by decide)]
  rfl

theorem blockLength_blit (buf : Nat → UInt8) {l : List UInt8} (h : l.length = sizeofFixedHeader) :
    blockLength (blit buf 0 (ofList l 0) l.length) = signed (headerLength l) := by
  have hcell : ∀ i < 4, blit buf 0 (ofList l 0) l.length i = ofList l 0 i := by
    intro i hi
    have hlt : i < l.length := h ▸ Nat.lt_trans hi (by decide)
    rw [blit, if_pos ⟨Nat.zero_le i, by omega⟩, Nat.sub_zero]
  rw [blockLength, hcell 0 (by decide), hcell 1 (by decide), hcell 2 (by decide),
    hcell 3 (by decide)]
  rfl

/-! ## One call -/

section Call

variable (buf : Buffer) (ch : Channel)

theorem read_timeout (h : ch.ready.length < sizeofFixedHeader) :
    (ch.read buf).bsize = 0 ∧ (ch.read buf).written = ch.ready.length ∧
      bytes ch.events = ch.ready ++ bytes (ch.read buf).channel := by
  have hheader : (readChannelEx sizeofFixedHeader ch.events).1 = ch.ready := by
    rw [readChannelEx_fst _ ch.solid]
    exact List.take_of_length_le (Nat.le_of_lt h)
  have hbytes := bytes_readChannelEx sizeofFixedHeader ch.solid
  have hshort : ch.ready.length ≠ sizeofFixedHeader := Nat.ne_of_lt h
  have hread : ch.read buf = ⟨0, blit buf.cells 0 (ofList ch.ready 0) ch.ready.length,
      ch.ready.length, (readChannelEx sizeofFixedHeader ch.events).2⟩ := by
    rw [Channel.read, readMfpdtfBlock]
    simp only [hheader, if_pos hshort]
  rw [hheader] at hbytes
  rw [hread]
  exact ⟨rfl, rfl, hbytes⟩

def Channel.rest : List UInt8 :=
  (ch.ready.drop sizeofFixedHeader).take (restLength (headerLength ch.ready)).toNat

variable {ch}

theorem header_length (h : sizeofFixedHeader ≤ ch.ready.length) :
    (ch.ready.take sizeofFixedHeader).length = sizeofFixedHeader := by
  rw [List.length_take, Nat.min_eq_left h]

theorem headerLength_take (h : sizeofFixedHeader ≤ ch.ready.length) :
    headerLength (ch.ready.take sizeofFixedHeader) = headerLength ch.ready := by
  conv_rhs => rw [← List.take_append_drop sizeofFixedHeader ch.ready]
  rw [headerLength_append (header_length h)]

theorem header_read (h : sizeofFixedHeader ≤ ch.ready.length) :
    (readChannelEx sizeofFixedHeader ch.events).1 = ch.ready.take sizeofFixedHeader ∧
      blockLength (blit buf.cells 0 (ofList (ch.ready.take sizeofFixedHeader) 0) sizeofFixedHeader)
        = signed (headerLength ch.ready) := by
  have hblock := blockLength_blit buf.cells (header_length h)
  rw [header_length h, headerLength_take h] at hblock
  exact ⟨readChannelEx_fst _ ch.solid, hblock⟩

theorem read_long (h : sizeofFixedHeader ≤ ch.ready.length)
    (hlong : (buf.size : Int) < signed (headerLength ch.ready)) :
    (ch.read buf).bsize = -1 ∧ (ch.read buf).written = sizeofFixedHeader := by
  obtain ⟨hheader, hblock⟩ := header_read buf h
  rw [Channel.read, readMfpdtfBlock]
  simp only [hheader, header_length h, hblock, if_pos hlong, ne_eq, not_true, if_false, and_self]

theorem read_rest (h : sizeofFixedHeader ≤ ch.ready.length)
    (hfits : signed (headerLength ch.ready) ≤ buf.size) :
    (ch.read buf).bsize = (if (ch.rest.length : Int) ≠ restLength (headerLength ch.ready) then -1
        else signed (headerLength ch.ready)) ∧
      (ch.read buf).written = sizeofFixedHeader + ch.rest.length ∧
      bytes ch.events = (ch.ready.take sizeofFixedHeader ++ ch.rest)
        ++ bytes (ch.read buf).channel := by
  obtain ⟨hheader, hblock⟩ := header_read buf h
  have hsolid := readChannelEx_solid sizeofFixedHeader ch.solid
  have hready := @ready_readChannelEx sizeofFixedHeader _ ch.solid h
  have hbytes := bytes_readChannelEx sizeofFixedHeader ch.solid
  have hbytes' := bytes_readChannelEx (restLength (headerLength ch.ready)) hsolid
  have hrest : (readChannelEx (restLength (headerLength ch.ready))
      (readChannelEx sizeofFixedHeader ch.events).2).1 = ch.rest := by
    rw [readChannelEx_fst _ hsolid, hready]
    rfl
  rw [hheader] at hbytes
  rw [hrest] at hbytes'
  rw [hbytes, hbytes', List.append_assoc]
  rw [Channel.read, readMfpdtfBlock]
  simp only [hheader, header_length h, hblock, if_neg (Int.not_lt.mpr hfits), ne_eq, not_true,
    if_false]
  have hwrap : wrapAdd (signed (headerLength ch.ready)) (-sizeofFixedHeader)
      = restLength (headerLength ch.ready) := rfl
  rw [hwrap, hrest]
  by_cases hshort : ¬ (ch.rest.length : Int) = restLength (headerLength ch.ready)
  · rw [if_pos hshort, if_pos hshort]
    exact ⟨rfl, rfl, rfl⟩
  · rw [if_neg hshort, if_neg hshort]
    exact ⟨rfl, rfl, rfl⟩

theorem inStep_timeout (h : ch.ready.length < sizeofFixedHeader) :
    InStep buf ch ↔ ch.ready = [] := by
  obtain ⟨hbsize, hwritten, hbytes⟩ := read_timeout buf ch h
  have hroom := buf.header_le
  constructor
  · intro hstep
    obtain ⟨block, hblock, hlength, -⟩ := hstep.consumed (hbsize ▸ Int.le_refl 0)
    rw [hbsize] at hlength
    rw [List.length_eq_zero_iff.mp (Int.natCast_eq_zero.mp hlength), hbytes] at hblock
    exact List.append_left_eq_self.mp hblock
  · intro hnone
    refine ⟨by omega, fun _ => ⟨[], ?_, by rw [hbsize]; rfl, .inl rfl⟩⟩
    rw [hbytes, hnone]

theorem inStep_long (h : sizeofFixedHeader ≤ ch.ready.length)
    (hlong : (buf.size : Int) < signed (headerLength ch.ready)) : InStep buf ch := by
  obtain ⟨hbsize, hwritten⟩ := read_long buf h hlong
  have hroom := buf.header_le
  exact ⟨by omega, fun hpos => by omega⟩

theorem rest_length (ch : Channel) : ch.rest.length
    = min (restLength (headerLength ch.ready)).toNat (ch.ready.length - sizeofFixedHeader) := by
  rw [Channel.rest, List.length_take, List.length_drop]

theorem inStep_fits (h : sizeofFixedHeader ≤ ch.ready.length)
    (hsmall : headerLength ch.ready < 2 ^ 31)
    (hfits : signed (headerLength ch.ready) ≤ buf.size) : InStep buf ch := by
  obtain ⟨hbsize, hwritten, hbytes⟩ := read_rest buf h hfits
  have hheader : sizeofFixedHeader = 8 := rfl
  have hroom := buf.header_le
  have hlength := rest_length ch
  have hword := headerLength_lt ch.ready
  have hsigned := signed_eq hword
  have hrest := restLength_eq (.inl hsmall) hword
  rw [if_pos hsmall] at hsigned
  refine ⟨by lia, fun hpos => ?_⟩
  have hcomplete : (ch.rest.length : Int) = restLength (headerLength ch.ready) := by
    by_contra hshort
    rw [if_pos hshort] at hbsize
    lia
  rw [if_neg (not_not_intro hcomplete)] at hbsize
  refine ⟨_, hbytes, ?_, .inr ?_⟩
  · rw [List.length_append, header_length h]
    lia
  · rw [headerLength_append (header_length h), headerLength_take h, List.length_append,
      header_length h]
    lia

theorem inStep_negative (h : sizeofFixedHeader ≤ ch.ready.length)
    (hlarge : 2 ^ 31 ≤ headerLength ch.ready) :
    InStep buf ch ↔
      (headerLength ch.ready < 2 ^ 31 + sizeofFixedHeader → ch.ready.length ≤ buf.size) := by
  have hheader : sizeofFixedHeader = 8 := rfl
  have hroom := buf.header_le
  have hint := buf.isInt
  have hlength := rest_length ch
  have hword := headerLength_lt ch.ready
  have hsigned := signed_eq hword
  rw [if_neg (Nat.not_lt.mpr hlarge)] at hsigned
  obtain ⟨hbsize, hwritten, -⟩ := read_rest buf h (by lia)
  have hnegative : ¬ 0 ≤ (ch.read buf).bsize := by
    split at hbsize <;> lia
  by_cases hwraps : headerLength ch.ready < 2 ^ 31 + sizeofFixedHeader
  · have hrest := restLength_wraps hlarge hwraps
    constructor
    · intro hstep _
      have hle := hstep.written_le
      lia
    · intro hle
      have hsome := hle hwraps
      exact ⟨by lia, fun hpos => absurd hpos hnegative⟩
  · have hrest := restLength_eq (.inr (Nat.not_lt.mp hwraps)) hword
    exact iff_of_true ⟨by lia, fun hpos => absurd hpos hnegative⟩ fun hlt => absurd hlt hwraps

/-- A call stays in step exactly if the channel fits. -/
theorem inStep_iff (buf : Buffer) (ch : Channel) : InStep buf ch ↔ Fits buf ch := by
  rw [Fits]
  by_cases hready : ch.ready.length < sizeofFixedHeader
  · rw [inStep_timeout buf hready]
    exact ⟨.inl, fun h => h.resolve_right fun hle => absurd hready (Nat.not_lt.mpr hle.1)⟩
  · have hready' := Nat.not_lt.mp hready
    have hsome : ch.ready ≠ [] := by
      intro hnil
      rw [hnil] at hready'
      exact absurd hready' (by decide)
    rw [or_iff_right hsome, and_iff_right hready']
    by_cases hlarge : 2 ^ 31 ≤ headerLength ch.ready
    · rw [inStep_negative buf hready' hlarge]
      exact ⟨fun h _ => h, fun h => h hlarge⟩
    · refine iff_of_true ?_ fun hbig => absurd hbig hlarge
      by_cases hlong : (buf.size : Int) < signed (headerLength ch.ready)
      · exact inStep_long buf hready' hlong
      · exact inStep_fits buf hready' (Nat.not_le.mp hlarge) (Int.not_lt.mp hlong)

def smallBuffer : Buffer := ⟨fun _ => 0, 32, by decide, by decide⟩

def lateChannel : Channel := ⟨[.piece [16, 0, 0], .pause, .piece [0, 8, 0, 0, 0]], by simp [Solid]⟩

/-- The call returns zero, and has lost the first piece. -/
theorem part_of_header_lost : ¬ InStep smallBuffer lateChannel := by
  intro h
  obtain ⟨block, hblock, hlength, -⟩ := h.consumed (by decide)
  have hnil : block = [] := List.length_eq_zero_iff.mp (Int.natCast_eq_zero.mp hlength)
  rw [hnil] at hblock
  exact absurd hblock (by decide)

end Call

end Hplip.Sane.MfpdtfChannel
