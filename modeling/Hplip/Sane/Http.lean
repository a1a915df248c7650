import Mathlib
import Hplip.Lib.Slice

/-!
# Reading a chunked payload (http.c)

The channel delivers bytes in pieces. What was read and not used yet is in the stream buffer, and
what is left of the current chunk is counted in `footer`.
-/

namespace Hplip.Sane.Http

inductive Answer
  | data (p : List UInt8)
  /-- A timeout or an I/O error. -/
  | again
  | error

/-- `enum HTTP_STATE`. -/
inductive State
  | active
  | eof
  deriving DecidableEq

/-- `enum HTTP_RESULT`. -/
inductive Result
  | ok
  | ioError
  | eof
  deriving DecidableEq

/-- `sizeof(ps->s.buf)`. -/
abbrev bufSize : Int := 4096

/-- `struct http_session`, and what the channel is going to answer. -/
structure Session where
  state : State
  httpStatus : Int
  footer : Int
  total : Int
  buf : Nat → UInt8
  index : Int
  cnt : Int
  channel : List Answer

/-- `hpmud_read_channel`; it has no more than what is asked for. -/
def readChannel (size : Int) : List Answer → Answer × List Answer
  | [] => (.again, [])
  | .data p :: rest =>
    (.data (p.take size.toNat),
      if p.length ≤ size.toNat then rest else .data (p.drop size.toNat) :: rest)
  | a :: rest => (a, rest)

/-- The read in `read_stream`, which is tried again so many times. -/
def retryChannel (size : Int) : Nat → List Answer → Answer × List Answer
  | 0, channel => readChannel size channel
  | retry + 1, channel =>
    match readChannel size channel with
    | (.again, rest) => retryChannel size retry rest
    | (a, rest) => (a, rest)

def takeStream (ps : Session) (size : Int) : List UInt8 × Session :=
  if size < ps.cnt then
    (slice ps.buf ps.index.toNat size.toNat,
      { ps with index := ps.index + size, cnt := ps.cnt - size })
  else (slice ps.buf ps.index.toNat ps.cnt.toNat, { ps with index := 0, cnt := 0 })

/-- `read_stream`: nothing on an error. -/
def readStream (ps : Session) (size : Int) : Option (List UInt8) × Session :=
  if ps.cnt ≠ 0 then ((takeStream ps size).map some id)
  else
    match retryChannel (bufSize - (ps.index + ps.cnt)) 3 ps.channel with
    | (.data p, rest) =>
      if p = [] then (none, { ps with channel := rest })
      else
        (takeStream { ps with
          buf := blit ps.buf ps.index.toNat (ofList p 0) p.length
          cnt := ps.cnt + p.length
          channel := rest } size).map some id
    | (_, rest) => (none, { ps with channel := rest })

def readChar (ps : Session) : Option UInt8 × Session :=
  (readStream ps 1).map (fun data => data.bind List.head?) id

/-- The loop of `read_line`, with so many characters to go: whether there was no error, the line,
and the session. -/
def readLine : Nat → Bool → Bool → List UInt8 → Session → Bool × List UInt8 × Session
  | 0, _, _, line, ps => (true, line, ps)
  | n + 1, cr, lf, line, ps =>
    match readChar ps with
    | (none, ps) => (false, line ++ [0xFF], ps)
    | (some ch, ps) =>
      if ch = 13 then readLine n true lf (line ++ [ch]) ps
      else if ch = 10 ∧ cr then (true, line ++ [ch], ps)
      else if ch = 10 ∧ lf then (true, line ++ [ch], ps)
      else if ch = 10 then readLine n cr true (line ++ [ch]) ps
      else readLine n false false (line ++ [ch]) ps

/-- `read_line` into the array `line`. -/
def readLine128 (ps : Session) : Bool × List UInt8 × Session := readLine 127 false false [] ps

/-! ## Numbers -/

def hexVal (c : UInt8) : Option Nat :=
  if 48 ≤ c ∧ c ≤ 57 then some (c.toNat - 48)
  else if 97 ≤ c ∧ c ≤ 102 then some (c.toNat - 87)
  else if 65 ≤ c ∧ c ≤ 70 then some (c.toNat - 55)
  else none

/-- The number that hexadecimal digits are, up to the first other character. -/
def hexNumber (value : Nat) : List UInt8 → Nat
  | [] => value
  | c :: s =>
    match hexVal c with
    | some d => hexNumber (value * 16 + d) s
    | none => value

def IsSpace (c : UInt8) : Prop := c = 32 ∨ 9 ≤ c ∧ c ≤ 13

instance (c : UInt8) : Decidable (IsSpace c) := inferInstanceAs (Decidable (_ ∨ _))

/-- `0x`, if a digit follows. -/
def skipPrefix : List UInt8 → List UInt8
  | 48 :: x :: d :: s => if (x = 120 ∨ x = 88) ∧ hexVal d ≠ none then d :: s else 48 :: x :: d :: s
  | s => s

/-- `strtol` with base 16, cut to an `int`. -/
def strtol16 (line : List UInt8) : Int :=
  let s := line.dropWhile fun c => decide (IsSpace c)
  let t := if s.head? = some 43 ∨ s.head? = some 45 then s.tail else s
  let n : Int := hexNumber 0 (skipPrefix t)
  let n := if s.head? = some 45 then -n else n
  (max (-2 ^ 63) (min n (2 ^ 63 - 1))).bmod (2 ^ 32)

/-! ## The payload -/

structure Outcome where
  result : Result
  data : List UInt8
  ps : Session

/-- The chunk goes on: data, and the end of the line when the chunk is complete. -/
def continueChunk (ps : Session) (maxSize : Int) : Outcome :=
  match readStream ps (if ps.footer < maxSize then ps.footer else maxSize) with
  | (none, ps) => ⟨.ioError, [], ps⟩
  | (some data, ps) =>
    let ps := { ps with total := ps.total + data.length, footer := ps.footer - data.length }
    if ps.footer = 0 then
      match readLine128 ps with
      | (false, _, ps) => ⟨.ioError, data, ps⟩
      | (true, _, ps) => ⟨.ok, data, ps⟩
    else ⟨.ok, data, ps⟩

def httpReadPayload (ps : Session) (maxSize : Int) : Outcome :=
  if ps.state = .eof then ⟨.eof, [], ps⟩
  else if ps.footer ≠ 0 then continueChunk ps maxSize
  else
    match readLine128 ps with
    | (false, _, ps) => ⟨.ioError, [], ps⟩
    | (true, line, ps) =>
      let ps := { ps with footer := strtol16 line }
      if ps.footer = 0 then ⟨.eof, [], { (readLine128 ps).2.2 with state := .eof }⟩
      else continueChunk ps maxSize

/-! ## What is to come -/

/-- The numbers of the stream buffer are in range. -/
structure Bounded (ps : Session) : Prop where
  index_nonneg : 0 ≤ ps.index
  cnt_nonneg : 0 ≤ ps.cnt
  le_bufSize : ps.index + ps.cnt ≤ bufSize
  /-- An empty buffer is used from the start. -/
  index_eq : ps.cnt = 0 → ps.index = 0

theorem Bounded.counters {ps : Session} (h : Bounded ps) (total : Int) (footer : Int) :
    Bounded { ps with total := total, footer := footer } :=
  ⟨h.index_nonneg, h.cnt_nonneg, h.le_bufSize, h.index_eq⟩

def delivered : List Answer → List UInt8
  | [] => []
  | .data p :: rest => p ++ delivered rest
  | _ :: rest => delivered rest

/-- The channel delivers between 1 and 4096 bytes each time, without an error. -/
def Clean (channel : List Answer) : Prop :=
  ∀ a ∈ channel, ∃ p, a = .data p ∧ p ≠ [] ∧ (p.length : Int) ≤ bufSize

def unread (ps : Session) : List UInt8 :=
  slice ps.buf ps.index.toNat ps.cnt.toNat ++ delivered ps.channel

structure SizeLine where
  digits : List UInt8
  ext : List UInt8
  digits_ne_nil : digits ≠ []
  hex : ∀ c ∈ digits, hexVal c ≠ none
  /-- An extension comes after a semicolon or a blank. -/
  ext_start : ∀ c, ext.head? = some c → c = 59 ∨ c = 32 ∨ c = 9
  ext_line : ∀ c ∈ ext, c ≠ 13 ∧ c ≠ 10
  /-- With the end of the line. -/
  length_le : digits.length + ext.length + 2 ≤ 127

def crlf : List UInt8 := [13, 10]

def SizeLine.bytes (l : SizeLine) : List UInt8 := l.digits ++ l.ext ++ crlf

structure Chunk where
  line : SizeLine
  data : List UInt8
  data_ne_nil : data ≠ []
  size_eq : hexNumber 0 line.digits = data.length
  size_lt : data.length < 2 ^ 31

def Chunk.bytes (c : Chunk) : List UInt8 := c.line.bytes ++ c.data ++ crlf

structure LastChunk where
  line : SizeLine
  size_eq : hexNumber 0 line.digits = 0

def encode (chunks : List Chunk) (last : LastChunk) : List UInt8 :=
  chunks.flatMap Chunk.bytes ++ last.line.bytes ++ crlf

def bodyOf (chunks : List Chunk) : List UInt8 := chunks.flatMap Chunk.data

/-! ## Reading the stream -/

section Stream

variable {ps ps' ps'' : Session} {data data' : List UInt8} {size : Int}

/-- Data was read, and the rest of the session is as before. -/
structure Reads (ps : Session) (data : List UInt8) (ps' : Session) : Prop where
  unread_eq : unread ps = data ++ unread ps'
  bounded : Bounded ps'
  clean : Clean ps'.channel
  state_eq : ps'.state = ps.state
  footer_eq : ps'.footer = ps.footer

theorem Reads.counters (h : Reads ps data ps') (total footer : Int) :
    ∃ ps'' : Session, ps'' = { ps' with total := total, footer := footer } ∧ Bounded ps'' ∧
      Clean ps''.channel ∧ ps''.state = ps.state ∧ ps''.footer = footer ∧
      unread ps'' = unread ps' :=
  ⟨_, rfl, h.bounded.counters _ _, h.clean, h.state_eq, rfl, rfl⟩

theorem Reads.trans (h : Reads ps data ps') (h' : Reads ps' data' ps'') :
    Reads ps (data ++ data') ps'' where
  unread_eq := by rw [h.unread_eq, h'.unread_eq, List.append_assoc]
  bounded := h'.bounded
  clean := h'.clean
  state_eq := h'.state_eq.trans h.state_eq
  footer_eq := h'.footer_eq.trans h.footer_eq

theorem takeStream_bounded (hb : Bounded ps) (hsize : 1 ≤ size) :
    Bounded (takeStream ps size).2 := by
  have hindex := hb.index_nonneg
  have hcnt := hb.cnt_nonneg
  have hle := hb.le_bufSize
  rw [takeStream]
  by_cases hlt : size < ps.cnt
  · rw [if_pos hlt]
    constructor
    · show 0 ≤ ps.index + size
      omega
    · show 0 ≤ ps.cnt - size
      omega
    · show ps.index + size + (ps.cnt - size) ≤ bufSize
      omega
    · intro hzero
      have hzero : ps.cnt - size = 0 := hzero
      omega
  · rw [if_neg hlt]
    have hempty : (0 : Int) + 0 ≤ bufSize := by decide
    exact ⟨Int.le_refl 0, Int.le_refl 0, hempty, fun _ => rfl⟩

theorem takeStream_reads (hb : Bounded ps) (hclean : Clean ps.channel) (hcnt : 0 < ps.cnt)
    (hsize : 1 ≤ size) :
    Reads ps (takeStream ps size).1 (takeStream ps size).2 ∧ (takeStream ps size).1 ≠ []
      ∧ ((takeStream ps size).1.length : Int) ≤ size := by
  have hbounded := takeStream_bounded hb hsize
  have hindex := hb.index_nonneg
  revert hbounded
  rw [takeStream]
  by_cases hlt : size < ps.cnt
  · rw [if_pos hlt]
    intro hbounded
    refine ⟨⟨?_, hbounded, hclean, rfl, rfl⟩, ?_, ?_⟩
    · have hsplit : ps.cnt.toNat = size.toNat + (ps.cnt - size).toNat := by lia
      have hnext : ps.index.toNat + size.toNat = (ps.index + size).toNat := by lia
      rw [unread, hsplit, slice_add, hnext, List.append_assoc]
      rfl
    · refine List.ne_nil_of_length_pos ?_
      rw [slice_length]
      lia
    · rw [slice_length]
      lia
  · rw [if_neg hlt]
    intro hbounded
    refine ⟨⟨rfl, hbounded, hclean, rfl, rfl⟩, ?_, ?_⟩
    · refine List.ne_nil_of_length_pos ?_
      rw [slice_length]
      lia
    · rw [slice_length]
      lia

theorem readStream_bounded (hb : Bounded ps) (hsize : 1 ≤ size) :
    Bounded (readStream ps size).2 := by
  rw [readStream]
  by_cases hcnt : ps.cnt ≠ 0
  · rw [if_pos hcnt]
    exact takeStream_bounded hb hsize
  · have hcnt : ps.cnt = 0 := not_not.mp hcnt
    have hindex := hb.index_eq hcnt
    have hread : ∀ (n : Nat) (channel : List Answer) (p : List UInt8) (rest : List Answer),
        retryChannel (bufSize - (ps.index + ps.cnt)) n channel = (.data p, rest) →
        (p.length : Int) ≤ bufSize := by
      have hone : ∀ (channel : List Answer) (p : List UInt8) (rest : List Answer),
          readChannel (bufSize - (ps.index + ps.cnt)) channel = (.data p, rest) →
          (p.length : Int) ≤ bufSize := by
        intro channel p rest h
        match channel, h with
        | .data q :: _, h =>
          have hp : q.take (bufSize - (ps.index + ps.cnt)).toNat = p :=
            Answer.data.inj (Prod.mk.inj h).1
          have hpos : (0 : Int) ≤ bufSize := by decide
          rw [← hp, List.length_take, hindex, hcnt]
          lia
      intro n
      induction n with
      | zero => exact hone
      | succ n ih =>
        intro channel p rest h
        rw [retryChannel] at h
        split at h
        · exact ih _ _ _ h
        · next a rest' hnot heq =>
          rw [h] at heq
          exact hone _ _ _ heq
    rw [if_neg (not_not.mpr hcnt)]
    have hchannel : ∀ rest, Bounded { ps with channel := rest } := fun rest =>
      ⟨hb.index_nonneg, hb.cnt_nonneg, hb.le_bufSize, hb.index_eq⟩
    split
    · next p rest heq =>
      split
      · exact hchannel rest
      · next hp =>
        refine takeStream_bounded ⟨hb.index_nonneg, ?_, ?_, fun hzero => ?_⟩ hsize
        · show 0 ≤ ps.cnt + p.length
          lia
        · show ps.index + (ps.cnt + p.length) ≤ bufSize
          have := hread _ _ _ _ heq
          lia
        · have hzero : ps.cnt + (p.length : Int) = 0 := hzero
          have := List.length_pos_iff.mpr hp
          lia
    · exact hchannel _

theorem readStream_reads (hb : Bounded ps) (hclean : Clean ps.channel) (hsize : 1 ≤ size)
    (hne : unread ps ≠ []) :
    ∃ data ps', readStream ps size = (some data, ps') ∧ Reads ps data ps' ∧ data ≠ []
      ∧ (data.length : Int) ≤ size := by
  rw [readStream]
  by_cases hcnt : ps.cnt ≠ 0
  · rw [if_pos hcnt]
    have hpos : 0 < ps.cnt := by
      have := hb.cnt_nonneg
      lia
    obtain ⟨hreads, hdata, hlen⟩ := takeStream_reads hb hclean hpos hsize
    exact ⟨_, _, rfl, hreads, hdata, hlen⟩
  · have hcnt : ps.cnt = 0 := not_not.mp hcnt
    have hindex := hb.index_eq hcnt
    have hunread : unread ps = delivered ps.channel := by
      rw [unread, hcnt]
      rfl
    rw [hunread] at hne
    rw [if_neg (not_not.mpr hcnt)]
    cases hchannel : ps.channel with
    | nil =>
      rw [hchannel] at hne
      exact absurd rfl hne
    | cons a rest =>
      obtain ⟨p, rfl, hp, hle⟩ := hclean a (by rw [hchannel]; exact List.mem_cons_self)
      have hfits : p.length ≤ (bufSize - (ps.index + ps.cnt)).toNat := by
        rw [hindex, hcnt]
        lia
      have hread : retryChannel (bufSize - (ps.index + ps.cnt)) 3 (.data p :: rest)
          = (.data p, rest) := by
        rw [retryChannel, readChannel, List.take_of_length_le hfits, if_pos hfits]
      rw [hread]
      simp only [if_neg hp]
      -- the session with the piece in its buffer
      obtain ⟨psf, hpsf⟩ : ∃ x : Session, x = { ps with
        buf := blit ps.buf ps.index.toNat (ofList p 0) p.length
        cnt := ps.cnt + p.length
        channel := rest } := ⟨_, rfl⟩
      have hpos := List.length_pos_iff.mpr hp
      have hb' : Bounded psf := by
        rw [hpsf]
        refine ⟨hb.index_nonneg, ?_, ?_, fun hzero => ?_⟩
        · show 0 ≤ ps.cnt + p.length
          lia
        · show ps.index + (ps.cnt + p.length) ≤ bufSize
          lia
        · have hzero : ps.cnt + (p.length : Int) = 0 := hzero
          lia
      have hclean' : Clean psf.channel := by
        rw [hpsf]
        exact fun a ha => hclean a (by rw [hchannel]; exact List.mem_cons_of_mem _ ha)
      have hunread' : unread psf = unread ps := by
        rw [hunread, hchannel, unread, hpsf]
        show slice _ ps.index.toNat (ps.cnt + p.length).toNat ++ delivered rest = p ++ delivered rest
        have hlen : (ps.cnt + p.length).toNat = p.length := by lia
        rw [hlen, slice_blit_self, slice_ofList]
      have hcnt' : 0 < psf.cnt := by
        rw [hpsf]
        show 0 < ps.cnt + p.length
        lia
      obtain ⟨hreads, hdata, hlen⟩ := takeStream_reads hb' hclean' hcnt' hsize
      rw [← hpsf]
      refine ⟨(takeStream psf size).1, (takeStream psf size).2, rfl,
        ⟨?_, hreads.bounded, hreads.clean, ?_, ?_⟩, hdata, hlen⟩
      · rw [← hunread', hreads.unread_eq]
      · rw [hreads.state_eq, hpsf]
      · rw [hreads.footer_eq, hpsf]

theorem readChar_reads (hb : Bounded ps) (hclean : Clean ps.channel) {c : UInt8} {s : List UInt8}
    (hunread : unread ps = c :: s) :
    ∃ ps', readChar ps = (some c, ps') ∧ Reads ps [c] ps' ∧ unread ps' = s := by
  obtain ⟨data, ps', hread, hreads, hne, hlen⟩ := readStream_reads hb hclean (Int.le_refl 1) (by
    rw [hunread]
    exact List.cons_ne_nil c s)
  obtain ⟨d, rfl⟩ : ∃ d, data = [d] := by
    match data, hne with
    | [d], _ => exact ⟨d, rfl⟩
    | _ :: _ :: _, _ =>
      simp only [List.length_cons] at hlen
      omega
  have hsplit := hreads.unread_eq
  rw [hunread] at hsplit
  obtain ⟨rfl, hs⟩ := List.cons.inj hsplit
  exact ⟨ps', by rw [readChar, hread]; rfl, hreads, hs.symm⟩

theorem readLine_reads {l s line : List UInt8} {n : Nat} {cr lf : Bool} (hb : Bounded ps)
    (hclean : Clean ps.channel) (hl : ∀ c ∈ l, c ≠ 13 ∧ c ≠ 10) (hlen : l.length + 2 ≤ n)
    (hunread : unread ps = l ++ crlf ++ s) :
    ∃ ps', readLine n cr lf line ps = (true, line ++ l ++ crlf, ps')
      ∧ Reads ps (l ++ crlf) ps' ∧ unread ps' = s := by
  induction l generalizing ps line n cr lf with
  | nil =>
    obtain ⟨n, rfl⟩ : ∃ k, n = k + 2 := ⟨n - 2, by simp at hlen; lia⟩
    obtain ⟨ps₁, hread₁, hreads₁, hunread₁⟩ := readChar_reads hb hclean hunread
    obtain ⟨ps₂, hread₂, hreads₂, hunread₂⟩ :=
      readChar_reads hreads₁.bounded hreads₁.clean hunread₁
    refine ⟨ps₂, ?_, hreads₁.trans hreads₂, hunread₂⟩
    rw [readLine, hread₁]
    simp only [if_pos]
    rw [readLine, hread₂]
    simp only [if_neg (show ¬ (10 : UInt8) = 13 by decide), and_self, if_pos]
    rw [List.append_assoc, List.append_nil]
    rfl
  | cons c l ih =>
    obtain ⟨n, rfl⟩ : ∃ k, n = k + 1 := ⟨n - 1, by simp at hlen; lia⟩
    obtain ⟨hcr, hlf⟩ := hl c List.mem_cons_self
    obtain ⟨ps₁, hread₁, hreads₁, hunread₁⟩ := readChar_reads hb hclean hunread
    obtain ⟨ps₂, hread₂, hreads₂, hunread₂⟩ :
        ∃ ps₂, readLine n false false (line ++ [c]) ps₁ = (true, line ++ [c] ++ l ++ crlf, ps₂)
          ∧ Reads ps₁ (l ++ crlf) ps₂ ∧ unread ps₂ = s :=
      ih hreads₁.bounded hreads₁.clean (fun x hx => hl x (List.mem_cons_of_mem _ hx))
        (by simp at hlen; lia) hunread₁
    refine ⟨ps₂, ?_, hreads₁.trans hreads₂, hunread₂⟩
    rw [readLine, hread₁]
    simp only [if_neg hcr, hlf, false_and, if_false]
    rw [hread₂]
    simp

end Stream

/-! ## Chunks -/

section Chunks

variable {ps : Session} {chunks : List Chunk} {last : LastChunk} {maxSize : Int}

theorem hexNumber_append {value : Nat} {digits s : List UInt8}
    (hhex : ∀ c ∈ digits, hexVal c ≠ none) (hs : ∀ c, s.head? = some c → hexVal c = none) :
    hexNumber value (digits ++ s) = hexNumber value digits := by
  induction digits generalizing value with
  | nil =>
    cases s with
    | nil => rfl
    | cons c s => simp only [List.nil_append, hexNumber, hs c rfl]
  | cons c digits ih =>
    obtain ⟨d, hd⟩ := Option.ne_none_iff_exists'.mp (hhex c List.mem_cons_self)
    rw [List.cons_append, hexNumber, hexNumber, hd]
    exact ih fun x hx => hhex x (List.mem_cons_of_mem _ hx)

theorem hexVal_ne_none {c : UInt8} (h : hexVal c ≠ none) :
    ¬ IsSpace c ∧ c ≠ 43 ∧ c ≠ 45 ∧ c ≠ 120 ∧ c ≠ 88 ∧ c ≠ 13 ∧ c ≠ 10 := by
  have hcases : 48 ≤ c ∧ c ≤ 57 ∨ 97 ≤ c ∧ c ≤ 102 ∨ 65 ≤ c ∧ c ≤ 70 := by
    by_contra hnot
    obtain ⟨h1, h2, h3⟩ : ¬ (48 ≤ c ∧ c ≤ 57) ∧ ¬ (97 ≤ c ∧ c ≤ 102) ∧ ¬ (65 ≤ c ∧ c ≤ 70) := by
      tauto
    rw [hexVal, if_neg h1, if_neg h2, if_neg h3] at h
    exact h rfl
  simp only [IsSpace, UInt8.le_iff_toNat_le, ← UInt8.toNat_inj, UInt8.toNat_ofNat, ne_eq]
    at hcases ⊢
  lia

theorem SizeLine.tail_head (l : SizeLine) {c : UInt8} (hc : (l.ext ++ crlf).head? = some c) :
    hexVal c = none ∧ c ≠ 120 ∧ c ≠ 88 := by
  have hcases : c = 59 ∨ c = 32 ∨ c = 9 ∨ c = 13 := by
    cases hext : l.ext with
    | nil =>
      rw [hext] at hc
      exact .inr (.inr (.inr (Option.some.inj hc).symm))
    | cons d ext =>
      rw [hext] at hc
      obtain rfl : d = c := Option.some.inj hc
      rcases l.ext_start d (by rw [hext]; rfl) with h | h | h
      · exact .inl h
      · exact .inr (.inl h)
      · exact .inr (.inr (.inl h))
  rcases hcases with rfl | rfl | rfl | rfl <;> decide

theorem SizeLine.strtol16_eq (l : SizeLine) (hlt : hexNumber 0 l.digits < 2 ^ 31) :
    strtol16 l.bytes = hexNumber 0 l.digits := by
  obtain ⟨d, digits, hdigits⟩ := List.exists_cons_of_ne_nil l.digits_ne_nil
  have hd := hexVal_ne_none (l.hex d (by rw [hdigits]; exact List.mem_cons_self))
  have hbytes : l.bytes = d :: (digits ++ (l.ext ++ crlf)) := by
    rw [SizeLine.bytes, hdigits, List.append_assoc, List.cons_append]
  have hspace : l.bytes.dropWhile (fun c => decide (IsSpace c)) = l.bytes := by
    rw [hbytes, List.dropWhile_cons_of_neg (by simpa using hd.1)]
  have hhead : l.bytes.head? = some d := by rw [hbytes]; rfl
  have hprefix : skipPrefix l.bytes = l.bytes := by
    rw [hbytes]
    unfold skipPrefix
    split
    · next x e s heq =>
      -- the character after the first digit is a digit or ends the number
      have hx : x ≠ 120 ∧ x ≠ 88 := by
        obtain ⟨-, htail⟩ := List.cons.inj heq
        cases digits with
        | nil =>
          have := l.tail_head (c := x) (by rw [List.nil_append] at htail; rw [htail]; rfl)
          exact this.2
        | cons y digits =>
          obtain ⟨rfl, -⟩ := List.cons.inj htail
          have := hexVal_ne_none (l.hex y (by rw [hdigits]; simp))
          exact ⟨this.2.2.2.1, this.2.2.2.2.1⟩
      rw [if_neg fun h => h.1.elim hx.1 hx.2]
      exact heq.symm
    · rfl
  have hnumber : hexNumber 0 l.bytes = hexNumber 0 l.digits := by
    rw [SizeLine.bytes, List.append_assoc]
    exact hexNumber_append l.hex fun c hc => (l.tail_head hc).1
  have hplus : ¬ (some d = some (43 : UInt8) ∨ some d = some 45) := by
    simp [hd.2.1, hd.2.2.1]
  have hminus : ¬ some d = some (45 : UInt8) := fun h => hplus (.inr h)
  rw [strtol16]
  simp only [hspace, hhead, if_neg hplus, if_neg hminus, hprefix, hnumber]
  have hcut : max (-2 ^ 63) (min ((hexNumber 0 l.digits : Nat) : Int) (2 ^ 63 - 1))
      = hexNumber 0 l.digits := by lia
  rw [hcut]
  exact Int.bmod_eq_of_le (by lia) (by lia)

theorem SizeLine.readLine_reads (l : SizeLine) {s : List UInt8} (hb : Bounded ps)
    (hclean : Clean ps.channel) (hunread : unread ps = l.bytes ++ s) :
    ∃ ps', readLine128 ps = (true, l.bytes, ps') ∧ Reads ps l.bytes ps' ∧ unread ps' = s := by
  show ∃ ps', readLine 127 false false [] ps = (true, [] ++ (l.digits ++ l.ext) ++ crlf, ps')
    ∧ Reads ps ((l.digits ++ l.ext) ++ crlf) ps' ∧ unread ps' = s
  refine Http.readLine_reads hb hclean (fun c hc => ?_) ?_ hunread
  · rcases List.mem_append.mp hc with hc | hc
    · have := hexVal_ne_none (l.hex c hc)
      exact ⟨this.2.2.2.2.2.1, this.2.2.2.2.2.2⟩
    · exact l.ext_line c hc
  · rw [List.length_append]
    exact l.length_le

theorem readLine_crlf {s : List UInt8} (hb : Bounded ps) (hclean : Clean ps.channel)
    (hunread : unread ps = crlf ++ s) :
    ∃ ps', readLine128 ps = (true, crlf, ps') ∧ Reads ps crlf ps' ∧ unread ps' = s :=
  Http.readLine_reads (l := []) hb hclean nofun (by decide) hunread

inductive Ahead (last : LastChunk) : Session → List UInt8 → Prop
  | between {ps : Session} (chunks : List Chunk) (hb : Bounded ps) (hclean : Clean ps.channel)
      (hstate : ps.state = .active) (hfooter : ps.footer = 0)
      (hunread : unread ps = encode chunks last) : Ahead last ps (bodyOf chunks)
  | inside {ps : Session} (d : List UInt8) (chunks : List Chunk) (hb : Bounded ps)
      (hclean : Clean ps.channel) (hstate : ps.state = .active) (hd : d ≠ [])
      (hfooter : ps.footer = d.length) (hunread : unread ps = d ++ crlf ++ encode chunks last) :
      Ahead last ps (d ++ bodyOf chunks)

theorem continueChunk_ahead {d : List UInt8} (hb : Bounded ps) (hclean : Clean ps.channel)
    (hstate : ps.state = .active) (hd : d ≠ []) (hfooter : ps.footer = d.length)
    (hunread : unread ps = d ++ crlf ++ encode chunks last) (hmax : 1 ≤ maxSize) :
    ∃ data body, (continueChunk ps maxSize).result = .ok ∧ (continueChunk ps maxSize).data = data
      ∧ data ≠ [] ∧ (data.length : Int) ≤ maxSize ∧ data ++ body = d ++ bodyOf chunks
      ∧ Ahead last (continueChunk ps maxSize).ps body := by
  have hpos := List.length_pos_iff.mpr hd
  have hsize : 1 ≤ (if ps.footer < maxSize then ps.footer else maxSize) := by
    split <;> omega
  obtain ⟨data, ps₁, hread, hreads, hdata, hlen⟩ := readStream_reads hb hclean hsize (by
    rw [hunread, List.append_assoc]
    exact List.append_ne_nil_of_left_ne_nil hd _)
  have hle : (data.length : Int) ≤ maxSize ∧ data.length ≤ d.length := by
    split at hlen
    · constructor <;> omega
    · constructor <;> omega
  -- the data is the front of the chunk
  have hfront : data <+: unread ps := ⟨_, hreads.unread_eq.symm⟩
  have hchunk : d <+: unread ps := by
    rw [hunread, List.append_assoc]
    exact List.prefix_append _ _
  obtain ⟨e, rfl⟩ := List.prefix_of_prefix_length_le hfront hchunk hle.2
  have hunread₁ : unread ps₁ = e ++ crlf ++ encode chunks last := by
    have := hreads.unread_eq
    rw [hunread, List.append_assoc, List.append_assoc] at this
    rw [List.append_assoc]
    exact (List.append_cancel_left this).symm
  rw [List.length_append] at hfooter
  obtain ⟨ps₂, hps₂, hb₂, hclean₂, hstate₂, hfooter₂, hunread₂⟩ :=
    hreads.counters (ps₁.total + data.length) (ps₁.footer - data.length)
  have hleft : ps₁.footer - data.length = e.length := by
    rw [hreads.footer_eq, hfooter]
    omega
  rw [hleft] at hfooter₂
  rw [hstate] at hstate₂
  rw [hunread₁] at hunread₂
  have hrun : continueChunk ps maxSize = if ps₂.footer = 0 then
      match readLine128 ps₂ with
      | (false, _, ps) => ⟨.ioError, data, ps⟩
      | (true, _, ps) => ⟨.ok, data, ps⟩
    else ⟨.ok, data, ps₂⟩ := by
    rw [continueChunk, hread, hps₂]
  rw [hrun]
  by_cases hdone : ps₂.footer = 0
  · have he : e = [] := List.length_eq_zero_iff.mp (by omega)
    rw [he, List.nil_append] at hunread₂
    obtain ⟨ps₃, hline, hreads₃, hunread₃⟩ := readLine_crlf hb₂ hclean₂ hunread₂
    rw [if_pos hdone, hline]
    refine ⟨data, bodyOf chunks, rfl, rfl, hdata, hle.1, by rw [he, List.append_nil], ?_⟩
    exact .between chunks hreads₃.bounded hreads₃.clean (hreads₃.state_eq.trans hstate₂)
      (hreads₃.footer_eq.trans hdone) hunread₃
  · rw [if_neg hdone]
    have he : e ≠ [] := by
      rintro rfl
      exact hdone hfooter₂
    exact ⟨data, e ++ bodyOf chunks, rfl, rfl, hdata, hle.1, (List.append_assoc _ _ _).symm,
      .inside e chunks hb₂ hclean₂ hstate₂ he hfooter₂ hunread₂⟩

def Ended (ps : Session) : Prop := ps.state = .eof ∧ Bounded ps

theorem httpReadPayload_ahead {body : List UInt8} (h : Ahead last ps body) (hmax : 1 ≤ maxSize) :
    let o := httpReadPayload ps maxSize
    (∃ rest, o.result = .ok ∧ o.data ≠ [] ∧ (o.data.length : Int) ≤ maxSize
      ∧ o.data ++ rest = body ∧ Ahead last o.ps rest) ∨
    (body = [] ∧ o.result = .eof ∧ o.data = [] ∧ Ended o.ps) := by
  intro o
  cases h with
  | inside d chunks hb hclean hstate hd hfooter hunread =>
    have hpos := List.length_pos_iff.mpr hd
    have ho : o = continueChunk ps maxSize := by
      show httpReadPayload ps maxSize = _
      rw [httpReadPayload, if_neg (by rw [hstate]; decide), if_pos (by omega)]
    obtain ⟨data, rest, hok, hdata, hne, hle, hbody, hahead⟩ :=
      continueChunk_ahead hb hclean hstate hd hfooter hunread hmax
    rw [ho, hdata]
    exact .inl ⟨rest, hok, hne, hle, hbody, hahead⟩
  | between chunks hb hclean hstate hfooter hunread =>
    have ho : o = match readLine128 ps with
        | (false, _, ps) => ⟨.ioError, [], ps⟩
        | (true, line, ps) =>
          if strtol16 line = 0 then
            ⟨.eof, [], { (readLine128 { ps with footer := strtol16 line }).2.2 with state := .eof }⟩
          else continueChunk { ps with footer := strtol16 line } maxSize := by
      show httpReadPayload ps maxSize = _
      rw [httpReadPayload, if_neg (by rw [hstate]; decide), if_neg (not_not.mpr hfooter)]
    cases chunks with
    | nil =>
      right
      have hunread' : unread ps = last.line.bytes ++ crlf := by rw [hunread]; rfl
      obtain ⟨ps₁, hline, hreads, hunread₁⟩ := last.line.readLine_reads hb hclean hunread'
      have hnumber : strtol16 last.line.bytes = 0 := by
        rw [last.line.strtol16_eq (by rw [last.size_eq]; decide), last.size_eq]
        rfl
      rw [hline] at ho
      simp only [hnumber, if_pos] at ho
      obtain ⟨ps₂, hps₂, hb₂, hclean₂, -, -, hunread₂⟩ := hreads.counters ps₁.total 0
      rw [hunread₁, ← List.append_nil crlf] at hunread₂
      obtain ⟨ps₃, hline₃, hreads₃, -⟩ := readLine_crlf hb₂ hclean₂ hunread₂
      rw [← hps₂, hline₃] at ho
      rw [ho]
      exact ⟨rfl, rfl, rfl, rfl, hreads₃.bounded.1, hreads₃.bounded.2, hreads₃.bounded.3,
        hreads₃.bounded.4⟩
    | cons c chunks =>
      left
      have hunread' : unread ps
          = c.line.bytes ++ (c.data ++ crlf ++ encode chunks last) := by
        rw [hunread, encode, List.flatMap_cons, Chunk.bytes, encode]
        simp only [List.append_assoc]
      obtain ⟨ps₁, hline, hreads, hunread₁⟩ := c.line.readLine_reads hb hclean hunread'
      have hnumber : strtol16 c.line.bytes = c.data.length := by
        rw [c.line.strtol16_eq (by rw [c.size_eq]; exact c.size_lt), c.size_eq]
      have hpos := List.length_pos_iff.mpr c.data_ne_nil
      obtain ⟨ps₂, hps₂, hb₂, hclean₂, hstate₂, hfooter₂, hunread₂⟩ :=
        hreads.counters ps₁.total c.data.length
      rw [hstate] at hstate₂
      rw [hunread₁] at hunread₂
      rw [hline] at ho
      simp only [hnumber] at ho
      rw [if_neg (by omega), ← hps₂] at ho
      obtain ⟨data, rest, hok, hdata, hne, hle, hbody, hahead⟩ :=
        continueChunk_ahead hb₂ hclean₂ hstate₂ c.data_ne_nil hfooter₂ hunread₂ hmax
      rw [ho, hdata]
      exact ⟨rest, hok, hne, hle, hbody, hahead⟩

theorem Ahead.bounded {body : List UInt8} (h : Ahead last ps body) : Bounded ps := by
  cases h with
  | between _ hb => exact hb
  | inside _ _ hb => exact hb

theorem httpReadPayload_ended (h : Ended ps) (maxSize : Int) :
    httpReadPayload ps maxSize = ⟨.eof, [], ps⟩ := by
  rw [httpReadPayload, if_pos h.1]

def after (ps : Session) (sizes : Nat → Int) : Nat → Session
  | 0 => ps
  | n + 1 => (httpReadPayload (after ps sizes n) (sizes n)).ps

def outcome (ps : Session) (sizes : Nat → Int) (i : Nat) : Outcome :=
  httpReadPayload (after ps sizes i) (sizes i)

theorem after_succ (ps : Session) (sizes : Nat → Int) (i : Nat) :
    after ps sizes (i + 1)
      = after (httpReadPayload ps (sizes 0)).ps (fun k => sizes (k + 1)) i := by
  induction i with
  | zero => rfl
  | succ i ih => rw [after, ih, after]

theorem outcome_succ (ps : Session) (sizes : Nat → Int) (i : Nat) :
    outcome ps sizes (i + 1)
      = outcome (httpReadPayload ps (sizes 0)).ps (fun k => sizes (k + 1)) i := by
  rw [outcome, after_succ, outcome]

theorem outcomes_eq {sizes : Nat → Int} (hsizes : ∀ i, 1 ≤ sizes i) {body : List UInt8}
    (h : Ahead last ps body) :
    ∃ n, (∀ i < n, (outcome ps sizes i).result = .ok ∧ (outcome ps sizes i).data ≠ [] ∧
        ((outcome ps sizes i).data.length : Int) ≤ sizes i) ∧
      (outcome ps sizes n).result = .eof ∧ (outcome ps sizes n).data = [] ∧
      (List.range n).flatMap (fun i => (outcome ps sizes i).data) = body := by
  -- each call that returns data leaves less of the body
  induction hlen : body.length using Nat.strong_induction_on generalizing ps body sizes with
  | _ k ih =>
    subst hlen
    rcases httpReadPayload_ahead h (hsizes 0) with
      ⟨rest, hok, hne, hle, hbody, hahead⟩ | ⟨rfl, heof, hdata, -⟩
    · have hshort : rest.length < body.length := by
        rw [← hbody, List.length_append]
        have := List.length_pos_iff.mpr hne
        omega
      obtain ⟨n, hcalls, heof, hdata, hall⟩ :=
        ih rest.length hshort (fun i => hsizes (i + 1)) hahead rfl
      refine ⟨n + 1, ?_, ?_, ?_, ?_⟩
      · intro i hi
        cases i with
        | zero => exact ⟨hok, hne, hle⟩
        | succ i =>
          rw [outcome_succ]
          exact hcalls i (Nat.lt_of_succ_lt_succ hi)
      · rw [outcome_succ]
        exact heof
      · rw [outcome_succ]
        exact hdata
      · rw [List.range_succ_eq_map, List.flatMap_cons, List.flatMap_map]
        simp only [outcome_succ, Nat.succ_eq_add_one]
        rw [hall]
        exact hbody
    · exact ⟨0, nofun, heof, hdata, rfl⟩

theorem after_bounded {sizes : Nat → Int} (hsizes : ∀ i, 1 ≤ sizes i) {body : List UInt8}
    (h : Ahead last ps body) (n : Nat) : Bounded (after ps sizes n) := by
  have hgoing : (∃ body, Ahead last (after ps sizes n) body) ∨ Ended (after ps sizes n) := by
    induction n with
    | zero => exact .inl ⟨body, h⟩
    | succ n ih =>
      rw [after]
      rcases ih with ⟨body, hahead⟩ | hended
      · rcases httpReadPayload_ahead hahead (hsizes n) with
          ⟨rest, -, -, -, -, hrest⟩ | ⟨-, -, -, hend⟩
        · exact .inl ⟨rest, hrest⟩
        · exact .inr hend
      · rw [httpReadPayload_ended hended]
        exact .inr hended
  rcases hgoing with ⟨_, hahead⟩ | hended
  · exact hahead.bounded
  · exact hended.2

/-- **The payload is the body**: the calls up to the end return it, each some of it and not more
than it may, and the stream buffer stays in its array. -/
theorem payload_eq (chunks : List Chunk) (last : LastChunk) (ps : Session) (sizes : Nat → Int)
    (hb : Bounded ps) (hclean : Clean ps.channel) (hstate : ps.state = .active)
    (hfooter : ps.footer = 0) (hunread : unread ps = encode chunks last)
    (hsizes : ∀ i, 1 ≤ sizes i) :
    (∃ n, (∀ i < n, (outcome ps sizes i).result = .ok ∧ (outcome ps sizes i).data ≠ [] ∧
        ((outcome ps sizes i).data.length : Int) ≤ sizes i) ∧
      (outcome ps sizes n).result = .eof ∧ (outcome ps sizes n).data = [] ∧
      (List.range n).flatMap (fun i => (outcome ps sizes i).data) = bodyOf chunks) ∧
    (∀ n, Bounded (after ps sizes n)) ∧
    ∀ (ps' : Session) (size : Int), Bounded ps' → 1 ≤ size → Bounded (readStream ps' size).2 := by
  have hahead : Ahead last ps (bodyOf chunks) := .between chunks hb hclean hstate hfooter hunread
  exact ⟨outcomes_eq hsizes hahead, after_bounded hsizes hahead,
    fun _ _ hb' hsize => readStream_bounded hb' hsize⟩

end Chunks

/-! ## One chunk -/

def digitLine (c : UInt8) (hc : hexVal c ≠ none) : SizeLine where
  digits := [c]
  ext := []
  digits_ne_nil := List.cons_ne_nil c []
  hex := by simpa using hc
  ext_start := nofun
  ext_line := nofun
  length_le := by simp

def threeBytes : Chunk where
  line := digitLine 51 (by decide)
  data := [97, 98, 99]
  data_ne_nil := by decide
  size_eq := by decide
  size_lt := by decide

def lastChunk : LastChunk := ⟨digitLine 48 (by decide), by decide⟩

/-- A session whose channel delivers a chunk of three bytes, in two pieces. -/
def threeSession : Session where
  state := .active
  httpStatus := 200
  footer := 0
  total := 0
  buf := fun _ => 0
  index := 0
  cnt := 0
  channel := [.data [51, 13, 10, 97], .data ([98, 99, 13, 10] ++ [48, 13, 10] ++ crlf)]

theorem payload_eq_three :
    ∃ n, (List.range n).flatMap (fun i => (outcome threeSession (fun _ => 2) i).data)
      = [97, 98, 99] := by
  obtain ⟨⟨n, -, -, -, hall⟩, -⟩ := payload_eq [threeBytes] lastChunk threeSession (fun _ => 2)
    ⟨by decide, by decide, by decide, fun _ => rfl⟩
    (by
      intro a ha
      rcases List.mem_cons.mp ha with rfl | ha
      · exact ⟨_, rfl, by decide, by decide⟩
      · rcases List.mem_cons.mp ha with rfl | ha
        · exact ⟨_, rfl, by decide, by decide⟩
        · cases ha)
    rfl rfl rfl (fun _ => by decide)
  exact ⟨n, hall⟩

end Hplip.Sane.Http
