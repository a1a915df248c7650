import Mathlib
import Hplip.Sane.Mfpdtf

/-!
# Reading a scanned page (pml.c)

`pml_start` reads the first block of a page, and each call of `pml_read` goes one step on: it
passes data of the current record to the image pipeline, goes to the next record, or reads the
next block.

The pipeline and the state of the upload are answers from outside. What the pipeline is passed is
noted. Sizes are numbers.
-/

namespace Hplip.Sane.Pml

open Mfpdtf

abbrev lenBuffer : Nat := 17408

/-- `sizeof(MFPDTF_START_PAGE)`, `sizeof(MFPDTF_RASTER)` and `sizeof(MFPDTF_END_PAGE)`. -/
abbrev sizeofStartPage : Nat := 36
abbrev sizeofRaster : Nat := 4
abbrev sizeofEndPage : Nat := 12

/-- `SANE_Status`. -/
inductive Status
  | good
  | eof
  | ioError
  deriving DecidableEq

/-- What `ipConvert` answers: whether there was an error, and how much it would use and make. -/
structure IpAnswer where
  error : Bool
  inputUsed : Nat
  outputUsed : Nat

/-- The answers of `ipConvert` and of the upload state, one after the other. -/
structure Env where
  ip : Nat → IpAnswer
  upload : Nat → Option Nat

/-- `HPAIO_RECORD`, with the channel and how many answers were used, and with the bytes that the
pipeline has taken. -/
structure Hpaio where
  inBuffer : Nat → UInt8
  blockSize : Nat
  blockIndex : Nat
  recordSize : Nat
  recordIndex : Nat
  mfpdtfDone : Bool
  mfpdtfTimeoutCnt : Nat
  pmlTimeoutCnt : Nat
  pmlDone : Bool
  ipDone : Bool
  pageDone : Bool
  hJob : Bool
  channel : List UInt8
  ipCalls : Nat
  uploads : Nat
  taken : List UInt8

/-- What a call does: its status, `*pLength` if it is set, and what the pipeline was passed. -/
structure Outcome where
  status : Status
  pLength : Option Nat
  input : Option (List UInt8)
  h : Hpaio

def checkPmlDone (env : Env) (h : Hpaio) : Bool × Hpaio :=
  let h' := { h with uploads := h.uploads + 1 }
  match env.upload h.uploads with
  | none => (false, h')
  | some state =>
    -- done, or a new page
    if state = 5 ∨ state = 6 then (true, { h' with pmlDone := true })
    -- still active
    else if state ≠ 3 then (false, h')
    else if h.ipDone ∧ h.mfpdtfDone then
      (decide (h.pmlTimeoutCnt ≤ 15), { h' with pmlTimeoutCnt := h.pmlTimeoutCnt + 1 })
    else (true, h')

/-- `pml_read`, from `bugout` on. -/
def finish (stat : Status) (pLength : Option Nat) (input : Option (List UInt8)) (h : Hpaio) :
    Outcome :=
  ⟨stat, pLength, input, if stat ≠ .good then { h with hJob := false } else h⟩

/-- The end of `pml_read` without an error. -/
def done (pLength : Option Nat) (input : Option (List UInt8)) (h : Hpaio) : Outcome :=
  finish (if h.ipDone ∧ h.mfpdtfDone ∧ h.pmlDone then .eof else .good) pLength input h

def processRecord (env : Env) (maxLength : Nat) (h : Hpaio) : Outcome :=
  let inputAvail := h.recordSize - h.recordIndex
  let input := slice h.inBuffer (h.blockIndex + h.recordIndex + sizeofRaster) inputAvail
  let a := env.ip h.ipCalls
  let inputUsed := min a.inputUsed inputAvail
  let h := { h with ipCalls := h.ipCalls + 1 }
  if a.error then finish .ioError none (some input) h
  else
    let h := { h with
      recordIndex := h.recordIndex + inputUsed
      taken := h.taken ++ input.take inputUsed }
    let h :=
      if h.recordSize ≤ h.recordIndex then
        { h with blockIndex := h.blockIndex + (sizeofRaster + h.recordSize) }
      else h
    done (some (min a.outputUsed maxLength)) (some input) h

def nextRecord (h : Hpaio) : Outcome :=
  let id := h.inBuffer h.blockIndex
  if id = 1 then
    done none none { h with
      recordSize := le16 (h.inBuffer (h.blockIndex + 2)) (h.inBuffer (h.blockIndex + 3))
      recordIndex := 0 }
  else if id = 2 then
    done none none { h with pageDone := true, blockIndex := h.blockIndex + sizeofEndPage }
  else finish .ioError none none h

def nextBlock (env : Env) (h : Hpaio) : Outcome :=
  let r := readMfpdtfBlock h.inBuffer lenBuffer h.channel
  let h := { h with inBuffer := r.buf, channel := r.channel }
  if r.bsize < 0 then finish .ioError none none h
  else
    let h := { h with blockSize := 0, blockIndex := 0 }
    if r.bsize = 0 then
      if h.pageDone ∨ h.pmlDone then done none none { h with mfpdtfDone := true }
      else
        let h' := { h with mfpdtfTimeoutCnt := h.mfpdtfTimeoutCnt + 1 }
        if 5 < h.mfpdtfTimeoutCnt then finish .ioError none none h'
        else
          match checkPmlDone env h' with
          | (false, h) => finish .ioError none none h
          | (true, h) => done none none h
    else
      let h := { h with mfpdtfTimeoutCnt := 0 }
      if (sizeofFixedHeader : Int) < r.bsize then
        done none none { h with blockSize := r.bsize.toNat, blockIndex := sizeofFixedHeader }
      else done none none h

def flush (env : Env) (maxLength : Nat) (h : Hpaio) : Outcome :=
  let a := env.ip h.ipCalls
  let h := { h with ipCalls := h.ipCalls + 1 }
  if a.error then finish .ioError none none h
  else
    let outputUsed := min a.outputUsed maxLength
    done (some outputUsed) none (if outputUsed = 0 then { h with ipDone := true } else h)

def pmlRead (env : Env) (maxLength : Nat) (h : Hpaio) : Outcome :=
  if h.recordIndex < h.recordSize then processRecord env maxLength h
  else if h.blockIndex < h.blockSize then nextRecord h
  else if ¬ h.mfpdtfDone then nextBlock env h
  else if (h.pageDone ∨ h.pmlDone) ∧ ¬ h.ipDone then flush env maxLength h
  else if ¬ h.pmlDone then
    match checkPmlDone env h with
    | (false, h) => finish .ioError none none h
    | (true, h) => done none none h
  else done none none h

/-- What `pml_start` sets when it has the first block of a page. -/
def started (buf : Nat → UInt8) (bsize : Nat) (channel : List UInt8) : Hpaio where
  inBuffer := buf
  blockSize := bsize
  blockIndex := sizeofFixedHeader + sizeofStartPage
  recordSize := 0
  recordIndex := 0
  mfpdtfDone := false
  mfpdtfTimeoutCnt := 0
  pmlTimeoutCnt := 0
  pmlDone := false
  ipDone := false
  pageDone := false
  hJob := true
  channel := channel
  ipCalls := 0
  uploads := 0
  taken := []

/-- The loop of `pml_start` that looks for the first block of a page. The buffer is as the page
before has left it. -/
def pmlStart (inBuffer : Nat → UInt8) : Nat → List UInt8 → Option Hpaio
  | 0, _ => none
  | fuel + 1, channel =>
    let r := readMfpdtfBlock inBuffer lenBuffer channel
    if r.bsize ≤ 0 then none
    -- a scan, and a new page
    else if r.buf 6 = 2 ∧ r.buf 7 &&& 1 ≠ 0 then
      if r.buf sizeofFixedHeader ≠ 0 then none
      else some (started r.buf r.bsize.toNat r.channel)
    else pmlStart r.buf fuel r.channel

def after (env : Env) (maxLength : Nat → Nat) (h : Hpaio) : Nat → Hpaio
  | 0 => h
  | n + 1 => (pmlRead env (maxLength n) (after env maxLength h n)).h

def outcome (env : Env) (maxLength : Nat → Nat) (h : Hpaio) (n : Nat) : Outcome :=
  pmlRead env (maxLength n) (after env maxLength h n)

/-! ## Pages -/

structure Record where
  dummy : UInt8
  data : List UInt8
  size_lt : data.length < 2 ^ 16

def Record.bytes (r : Record) : List UInt8 := [1, r.dummy] ++ word16 r.data.length ++ r.data

structure EndPage where
  rest : List UInt8
  length_eq : rest.length = 11

def EndPage.bytes (e : EndPage) : List UInt8 := 2 :: e.rest

structure StartPage where
  rest : List UInt8
  length_eq : rest.length = 35

def StartPage.bytes (p : StartPage) : List UInt8 := 0 :: p.rest

def recordBytes (records : List Record) : List UInt8 := records.flatMap Record.bytes

structure Part where
  flags : List UInt8
  records : List Record
  flags_length : flags.length = 4

def endBytes (e : EndPage) : List Part → List UInt8
  | [] => e.bytes
  | _ :: _ => []

def Part.block (p : Part) (e : EndPage) (parts : List Part) : Block where
  flags := p.flags
  content := recordBytes p.records ++ endBytes e parts
  flags_length := p.flags_length

def blocksOf (e : EndPage) : List Part → List Block
  | [] => []
  | p :: parts => p.block e parts :: blocksOf e parts

def channelOf (blocks : List Block) : List UInt8 := blocks.flatMap Block.bytes

structure Page where
  flags : List UInt8
  start : StartPage
  records : List Record
  parts : List Part
  last : EndPage
  flags_length : flags.length = 4
  /-- A scan, and a new page. -/
  newPage : flags[2]? = some 2 ∧ ∃ f, flags[3]? = some f ∧ f &&& 1 ≠ 0
  first_fits : sizeofFixedHeader + (start.bytes ++ (recordBytes records ++
    endBytes last parts)).length ≤ lenBuffer
  fits : ∀ b ∈ blocksOf last parts, b.size ≤ lenBuffer

def Page.firstBlock (p : Page) : Block where
  flags := p.flags
  content := p.start.bytes ++ (recordBytes p.records ++ endBytes p.last p.parts)
  flags_length := p.flags_length

def Page.bytes (p : Page) : List UInt8 := p.firstBlock.bytes ++ channelOf (blocksOf p.last p.parts)

def Page.allRecords (p : Page) : List Record := p.records ++ p.parts.flatMap Part.records

def payload (records : List Record) : List UInt8 := records.flatMap Record.data

/-- The pipeline has no error, and each of its answers uses or makes something. Again and again
it uses something: what it makes without using anything is a finite amount. -/
structure Env.Works (env : Env) : Prop where
  noError : ∀ n, (env.ip n).error = false
  progress : ∀ n, 1 ≤ (env.ip n).inputUsed ∨ 1 ≤ (env.ip n).outputUsed
  uses : ∀ n, ∃ m, n ≤ m ∧ 1 ≤ (env.ip m).inputUsed

/-- The page is read: after finitely many calls, all of them good, the end of the page was reached,
and the pipeline has taken the payload. Until then it is passed what is left of a record. -/
def IsRead (env : Env) (maxLength : Nat → Nat) (p : Page) (h : Hpaio) : Prop :=
  (∃ n, (after env maxLength h n).pageDone = true ∧
    (after env maxLength h n).taken = payload p.allRecords ∧
    ∀ i < n, (outcome env maxLength h i).status = .good ∧
      (after env maxLength h i).pageDone = false ∧
      (after env maxLength h i).taken <+: payload p.allRecords ∧
      ∀ input, (outcome env maxLength h i).input = some input →
        ∃ r ∈ p.allRecords, input <:+ r.data)

/-! ## What is left of a page -/

/-- The record that data is taken from, with the bytes that were taken; the records of the block
that come next; and the parts after it. -/
structure Todo where
  cur : Option (Record × Nat)
  records : List Record
  parts : List Part

def Todo.here (e : EndPage) (t : Todo) : List UInt8 :=
  (t.cur.map fun c => c.1.bytes).getD [] ++ recordBytes t.records ++ endBytes e t.parts

def Todo.waiting (t : Todo) : List Record := t.records ++ t.parts.flatMap Part.records

def Todo.left (t : Todo) : List UInt8 :=
  (t.cur.map fun c => c.1.data.drop c.2).getD [] ++ payload t.waiting

/-- One step, when the pipeline would use so much: what is left then, and what was taken. At the
end of the page there is nothing left. -/
def Todo.next (used : Nat) : Todo → Option (Todo × List UInt8)
  | ⟨some (r, i), records, parts⟩ =>
    let n := min used (r.data.length - i)
    some (⟨if r.data.length ≤ i + n then none else some (r, i + n), records, parts⟩,
      (r.data.drop i).take n)
  | ⟨none, r :: records, parts⟩ =>
    some (if r.data = [] then ⟨none, r :: records, parts⟩ else ⟨some (r, 0), records, parts⟩, [])
  | ⟨none, [], p :: parts⟩ => some (⟨none, p.records, parts⟩, [])
  | ⟨none, [], []⟩ => none

/-- The state has the rest of a page. -/
structure Holds (e : EndPage) (h : Hpaio) (t : Todo) : Prop where
  index_le : h.blockIndex ≤ h.blockSize
  block : slice h.inBuffer h.blockIndex (h.blockSize - h.blockIndex) = t.here e
  channel : h.channel = channelOf (blocksOf e t.parts)
  fits : ∀ b ∈ blocksOf e t.parts, b.size ≤ lenBuffer
  idle : t.cur = none → h.recordSize ≤ h.recordIndex
  current : ∀ r i, t.cur = some (r, i) →
    h.recordSize = r.data.length ∧ h.recordIndex = i ∧ i < r.data.length
  pageDone : h.pageDone = false
  mfpdtfDone : h.mfpdtfDone = false

section Steps

variable {env : Env} {e : EndPage} {h : Hpaio} {t : Todo} {maxLength : Nat}

theorem Record.length_bytes (r : Record) : r.bytes.length = sizeofRaster + r.data.length := by
  simp only [Record.bytes, word16, List.length_append, List.length_cons, List.length_nil]

theorem done_good (pLength : Option Nat) (input : Option (List UInt8)) (hdone : h.mfpdtfDone = false) :
    done pLength input h = ⟨.good, pLength, input, h⟩ := by
  have hnot : ¬ (h.ipDone = true ∧ h.mfpdtfDone = true ∧ h.pmlDone = true) := by
    rw [hdone]
    exact fun hall => nomatch hall.2.1
  rw [done, if_neg hnot, finish, if_neg (not_not.mpr rfl)]

/-- What a step does to the state, when the pipeline works: it goes one step on with what is
left. -/
structure Steps (e : EndPage) (used : Nat) (h : Hpaio) (t : Todo) (o : Outcome) : Prop where
  good : o.status = .good
  input : ∀ input, o.input = some input → ∃ r i, t.cur = some (r, i) ∧ input = r.data.drop i
  calls : o.h.ipCalls = h.ipCalls + if t.cur.isSome then 1 else 0
  next : ∀ t' taken, t.next used = some (t', taken) →
    Holds e o.h t' ∧ o.h.taken = h.taken ++ taken
  ends : t.next used = none → o.h.pageDone = true ∧ o.h.taken = h.taken

theorem Holds.processRecord {r : Record} {i : Nat} {records : List Record} {parts : List Part}
    (hh : Holds e h ⟨some (r, i), records, parts⟩) (hworks : env.Works) :
    Steps e (env.ip h.ipCalls).inputUsed h ⟨some (r, i), records, parts⟩
      (processRecord env maxLength h) := by
  obtain ⟨hsize, hindex, hlt⟩ := hh.current r i rfl
  have hblock := hh.block
  have hlen := congrArg List.length hblock
  simp only [Todo.here, Option.map_some, Option.getD_some, slice_length, List.length_append,
    r.length_bytes] at hlen
  -- the input is the rest of the record
  have hinput : slice h.inBuffer (h.blockIndex + i + sizeofRaster) (r.data.length - i)
      = r.data.drop i := by
    have hshift : h.blockIndex + i + sizeofRaster = h.blockIndex + (sizeofRaster + i) := by lia
    rw [hshift, ← take_drop_slice h.inBuffer (n := h.blockSize - h.blockIndex) (by lia), hblock]
    have hfront : ([1, r.dummy] ++ word16 r.data.length).length = sizeofRaster := rfl
    rw [Todo.here, Option.map_some, Option.getD_some, Record.bytes, ← List.drop_drop,
      List.append_assoc, List.append_assoc, List.drop_left' hfront,
      List.drop_append_of_le_length hlt.le, List.take_left' (by rw [List.length_drop])]
  obtain ⟨n, hn⟩ : ∃ n, n = min (env.ip h.ipCalls).inputUsed (r.data.length - i) := ⟨_, rfl⟩
  have hle : n ≤ r.data.length - i := by rw [hn]; exact Nat.min_le_right _ _
  rw [Pml.processRecord]
  simp only [hindex, hsize, hinput, ← hn, hworks.noError h.ipCalls, Bool.false_eq_true, if_false]
  rw [done_good _ _ (by split <;> exact hh.mfpdtfDone)]
  refine ⟨rfl, ?_, ?_, ?_, fun hnone => nomatch hnone⟩
  · intro input hsome
    exact ⟨r, i, rfl, (Option.some.inj hsome).symm⟩
  · dsimp only
    split <;> rfl
  · intro t' taken hnext
    rw [Todo.next, ← hn] at hnext
    obtain ⟨rfl, rfl⟩ := Prod.mk.inj (Option.some.inj hnext)
    by_cases hend : r.data.length ≤ i + n
    · simp only [if_pos hend]
      refine ⟨⟨?_, ?_, hh.channel, hh.fits, fun _ => hend, nofun, hh.pageDone, hh.mfpdtfDone⟩,
        trivial⟩
      · show h.blockIndex + (sizeofRaster + r.data.length) ≤ h.blockSize
        lia
      · show slice h.inBuffer (h.blockIndex + (sizeofRaster + r.data.length))
          (h.blockSize - (h.blockIndex + (sizeofRaster + r.data.length))) = _
        have hdrop := drop_slice h.inBuffer (i := h.blockIndex) (j := sizeofRaster + r.data.length)
          (n := h.blockSize - h.blockIndex) (by lia)
        rw [Nat.sub_add_eq, ← hdrop, hblock, Todo.here, Option.map_some, Option.getD_some,
          List.append_assoc, List.drop_left' r.length_bytes]
        rfl
    · simp only [if_neg hend]
      refine ⟨⟨hh.index_le, hblock, hh.channel, hh.fits, nofun, ?_, hh.pageDone, hh.mfpdtfDone⟩,
        trivial⟩
      intro r' i' hcur
      obtain ⟨rfl, rfl⟩ := Prod.mk.inj (Option.some.inj hcur)
      exact ⟨rfl, rfl, Nat.lt_of_not_le hend⟩

theorem Holds.at_index (hh : Holds e h t) {l l' : List UInt8} (hl : t.here e = l ++ l') :
    l.length ≤ h.blockSize - h.blockIndex ∧
      ∀ k < l.length, h.inBuffer (h.blockIndex + k) = l.getD k 0 := by
  have hblock := hh.block
  rw [hl] at hblock
  have hlen := congrArg List.length hblock
  rw [slice_length, List.length_append] at hlen
  refine ⟨by omega, fun k hk => ?_⟩
  have hget : (slice h.inBuffer h.blockIndex (h.blockSize - h.blockIndex))[k]? = (l ++ l')[k]? := by
    rw [hblock]
  rw [slice_getElem? h.inBuffer h.blockIndex (show k < h.blockSize - h.blockIndex by omega),
    List.getElem?_append_left hk] at hget
  rw [List.getD_eq_getElem?_getD, ← hget]
  rfl

theorem Holds.nextRecord {r : Record} {records : List Record} {parts : List Part} (used : Nat)
    (hh : Holds e h ⟨none, r :: records, parts⟩) :
    h.blockIndex < h.blockSize ∧
      Steps e used h ⟨none, r :: records, parts⟩ (nextRecord h) := by
  have hhere : Todo.here e ⟨none, r :: records, parts⟩
      = [1, r.dummy, r.data.length.toUInt8, (r.data.length / 256).toUInt8]
        ++ (r.data ++ (recordBytes records ++ endBytes e parts)) := by
    simp only [Todo.here, recordBytes, List.flatMap_cons, Record.bytes, word16, Option.map_none,
      Option.getD_none, List.nil_append, List.append_assoc, List.cons_append]
  obtain ⟨hle, hbytes⟩ := hh.at_index hhere
  have hid : h.inBuffer h.blockIndex = 1 := hbytes 0 (by simp)
  have hsize : le16 (h.inBuffer (h.blockIndex + 2)) (h.inBuffer (h.blockIndex + 3))
      = r.data.length := by
    rw [hbytes 2 (by simp), hbytes 3 (by simp)]
    exact le16_word16 r.size_lt
  simp only [List.length_cons, List.length_nil] at hle
  refine ⟨by lia, ?_⟩
  rw [Pml.nextRecord]
  simp only [hid, if_pos, hsize]
  rw [done_good _ _ (by exact hh.mfpdtfDone)]
  refine ⟨rfl, (by rintro _ ⟨⟩), rfl, ?_, by rintro ⟨⟩⟩
  intro t' taken hnext
  obtain ⟨rfl, rfl⟩ := Prod.mk.inj (Option.some.inj hnext)
  refine ⟨?_, (List.append_nil _).symm⟩
  by_cases hempty : r.data = []
  · -- an empty record is not passed
    rw [if_pos hempty]
    exact ⟨hh.index_le, hh.block, hh.channel, hh.fits,
      fun _ => by rw [hempty]; exact Nat.le_refl 0, (by rintro _ _ ⟨⟩), hh.pageDone, hh.mfpdtfDone⟩
  · rw [if_neg hempty]
    refine ⟨hh.index_le, ?_, hh.channel, hh.fits, (by rintro ⟨⟩), ?_, hh.pageDone, hh.mfpdtfDone⟩
    · have hblock := hh.block
      simp only [Todo.here, recordBytes, List.flatMap_cons, Option.map_none, Option.getD_none,
        List.nil_append] at hblock
      simp only [Todo.here, recordBytes, Option.map_some, Option.getD_some]
      exact hblock
    · intro r' i' hcur
      obtain ⟨rfl, rfl⟩ := Prod.mk.inj (Option.some.inj hcur)
      exact ⟨rfl, rfl, List.length_pos_iff.mpr hempty⟩

theorem Holds.endPage (used : Nat) (hh : Holds e h ⟨none, [], []⟩) :
    h.blockIndex < h.blockSize ∧ Steps e used h ⟨none, [], []⟩ (Pml.nextRecord h) := by
  have hhere : Todo.here e ⟨none, [], []⟩ = [2] ++ e.rest := rfl
  obtain ⟨hle, hbytes⟩ := hh.at_index hhere
  have hid : h.inBuffer h.blockIndex = 2 := hbytes 0 (by decide)
  simp only [List.length_cons, List.length_nil] at hle
  refine ⟨by omega, ?_⟩
  rw [Pml.nextRecord]
  simp only [hid, show ¬ (2 : UInt8) = 1 by decide, if_false, if_pos]
  rw [done_good _ _ (by exact hh.mfpdtfDone)]
  exact ⟨rfl, nofun, rfl, nofun, fun _ => ⟨rfl, rfl⟩⟩

variable (env) in
theorem Holds.nextBlock {p : Part} {parts : List Part} (used : Nat)
    (hh : Holds e h ⟨none, [], p :: parts⟩) :
    h.blockIndex = h.blockSize ∧
      Steps e used h ⟨none, [], p :: parts⟩ (nextBlock env h) := by
  have hlen := congrArg List.length hh.block
  rw [slice_length] at hlen
  have hnone : h.blockSize - h.blockIndex = 0 := hlen
  have hle := hh.index_le
  refine ⟨by lia, ?_⟩
  have hfits : (p.block e parts).size ≤ lenBuffer := hh.fits _ List.mem_cons_self
  have hchannel : h.channel = (p.block e parts).bytes ++ channelOf (blocksOf e parts) := hh.channel
  obtain ⟨buf', hread, hbuf'⟩ := readMfpdtfBlock_eq h.inBuffer (p.block e parts) hfits (by decide)
    (channelOf (blocksOf e parts))
  have hpos : 0 < (p.block e parts).size := by
    rw [Block.size]
    exact Nat.add_pos_left (by decide) _
  -- the records of the block
  have hcontent : slice buf' sizeofFixedHeader ((p.block e parts).size - sizeofFixedHeader)
      = Todo.here e ⟨none, p.records, parts⟩ := by
    have hdrop := drop_slice buf' (i := 0) (j := sizeofFixedHeader) (n := (p.block e parts).size)
      (by rw [Block.size]; lia)
    rw [Nat.zero_add] at hdrop
    rw [← hdrop, hbuf', Block.bytes, List.drop_left']
    · rfl
    · simp [word32, word16, (p.block e parts).flags_length]
  rw [Pml.nextBlock, hchannel, hread]
  simp only [show ¬ ((p.block e parts).size : Int) < 0 by lia,
    show ¬ ((p.block e parts).size : Int) = 0 by lia, if_false, Int.toNat_natCast]
  by_cases hmore : (sizeofFixedHeader : Int) < (p.block e parts).size
  · rw [if_pos hmore, done_good _ _ (by exact hh.mfpdtfDone)]
    refine ⟨rfl, (by rintro _ ⟨⟩), rfl, ?_, by rintro ⟨⟩⟩
    intro t' taken hnext
    obtain ⟨rfl, rfl⟩ := Prod.mk.inj (Option.some.inj hnext)
    have hindex : sizeofFixedHeader ≤ (p.block e parts).size := by lia
    exact ⟨⟨hindex, hcontent, rfl, fun b hb => hh.fits b (List.mem_cons_of_mem _ hb),
      fun _ => hh.idle rfl, (by rintro _ _ ⟨⟩), hh.pageDone, hh.mfpdtfDone⟩, (List.append_nil _).symm⟩
  · -- a block without records
    rw [if_neg hmore, done_good _ _ (by exact hh.mfpdtfDone)]
    refine ⟨rfl, (by rintro _ ⟨⟩), rfl, ?_, by rintro ⟨⟩⟩
    intro t' taken hnext
    obtain ⟨rfl, rfl⟩ := Prod.mk.inj (Option.some.inj hnext)
    have hzero : (p.block e parts).size - sizeofFixedHeader = 0 := by lia
    rw [hzero, slice_zero] at hcontent
    exact ⟨⟨Nat.le_refl 0, hcontent, rfl, fun b hb => hh.fits b (List.mem_cons_of_mem _ hb),
      fun _ => hh.idle rfl, (by rintro _ _ ⟨⟩), hh.pageDone, hh.mfpdtfDone⟩, (List.append_nil _).symm⟩

/-- **One call** goes one step on. -/
theorem Holds.pmlRead (hh : Holds e h t) (hworks : env.Works) (maxLength : Nat) :
    Steps e (env.ip h.ipCalls).inputUsed h t (pmlRead env maxLength h) := by
  rw [Pml.pmlRead]
  obtain ⟨_ | ⟨r, i⟩, records, parts⟩ := t
  · have hidle : ¬ h.recordIndex < h.recordSize := Nat.not_lt.mpr (hh.idle rfl)
    rw [if_neg hidle]
    match records, parts, hh with
    | r :: records, parts, hh =>
      obtain ⟨hlt, hsteps⟩ := hh.nextRecord (env.ip h.ipCalls).inputUsed
      rw [if_pos hlt]
      exact hsteps
    | [], [], hh =>
      obtain ⟨hlt, hsteps⟩ := hh.endPage (env.ip h.ipCalls).inputUsed
      rw [if_pos hlt]
      exact hsteps
    | [], p :: parts, hh =>
      obtain ⟨heq, hsteps⟩ := hh.nextBlock env (env.ip h.ipCalls).inputUsed
      rw [if_neg (by omega), if_pos (by rw [hh.mfpdtfDone]; decide)]
      exact hsteps
  · obtain ⟨hsize, hindex, hlt⟩ := hh.current r i rfl
    rw [if_pos (by omega)]
    exact hh.processRecord hworks

end Steps

/-! ## Runs -/

section Runs

variable {env : Env} {e : EndPage} {h : Hpaio} {t t' : Todo} {maxLength : Nat → Nat}

theorem after_succ (n : Nat) : after env maxLength h (n + 1)
    = after env (fun k => maxLength (k + 1)) (pmlRead env (maxLength 0) h).h n := by
  induction n with
  | zero => rfl
  | succ n ih => rw [after, ih, after]

theorem outcome_succ (n : Nat) : outcome env maxLength h (n + 1)
    = outcome env (fun k => maxLength (k + 1)) (pmlRead env (maxLength 0) h).h n := by
  rw [outcome, after_succ, outcome]

def Todo.all (t : Todo) : List Record := (t.cur.map Prod.fst).toList ++ t.waiting

theorem Todo.left_next {used : Nat} {taken : List UInt8} (hnext : t.next used = some (t', taken)) :
    t.left = taken ++ t'.left ∧ ∀ r ∈ t'.all, r ∈ t.all := by
  obtain ⟨_ | ⟨r, i⟩, records, parts⟩ := t
  · match records, parts, hnext with
    | r :: records, parts, hnext =>
      obtain ⟨rfl, rfl⟩ := Prod.mk.inj (Option.some.inj hnext)
      by_cases hempty : r.data = []
      · rw [if_pos hempty]
        exact ⟨rfl, fun _ hr => hr⟩
      · rw [if_neg hempty]
        constructor
        · simp [Todo.left, Todo.waiting, payload]
        · intro x hx
          simpa [Todo.all, Todo.waiting] using hx
    | [], p :: parts, hnext =>
      obtain ⟨rfl, rfl⟩ := Prod.mk.inj (Option.some.inj hnext)
      constructor
      · simp [Todo.left, Todo.waiting, payload]
      · intro x hx
        simpa [Todo.all, Todo.waiting] using hx
  · obtain ⟨rfl, rfl⟩ := Prod.mk.inj (Option.some.inj hnext)
    obtain ⟨n, hn⟩ : ∃ n, n = min used (r.data.length - i) := ⟨_, rfl⟩
    rw [← hn]
    by_cases hend : r.data.length ≤ i + n
    · rw [if_pos hend]
      constructor
      · rw [List.take_of_length_le (by rw [List.length_drop]; lia)]
        simp [Todo.left, Todo.waiting]
      · intro x hx
        have hx : x ∈ records ++ parts.flatMap Part.records := by
          simpa [Todo.all, Todo.waiting] using hx
        exact List.mem_append_right _ hx
    · rw [if_neg hend]
      constructor
      · simp only [Todo.left, Option.map_some, Option.getD_some]
        rw [← List.append_assoc, ← List.drop_drop, List.take_append_drop]
        rfl
      · exact fun _ hx => hx

/-- How many steps are left at most, if every step takes or enters something. -/
def Todo.size (t : Todo) : Nat := t.left.length + t.waiting.length + t.parts.length

theorem Todo.size_next {used : Nat} {taken : List UInt8} (hnext : t.next used = some (t', taken))
    (hcur : ∀ r i, t.cur = some (r, i) → i < r.data.length) (hne : ∀ r ∈ t.all, r.data ≠ []) :
    t'.size < t.size ∨ t' = t ∧ used = 0 ∧ t.cur.isSome := by
  have hleft := congrArg List.length (Todo.left_next hnext).1
  rw [List.length_append] at hleft
  obtain ⟨_ | ⟨r, i⟩, records, parts⟩ := t
  · left
    match records, parts, hnext with
    | r :: records, parts, hnext =>
      obtain ⟨rfl, rfl⟩ := Prod.mk.inj (Option.some.inj hnext)
      have hr : r.data ≠ [] := hne r (by simp [Todo.all, Todo.waiting])
      rw [if_neg hr] at hleft ⊢
      simp only [Todo.size, Todo.waiting, List.length_append, List.length_cons,
        List.length_nil] at hleft ⊢
      lia
    | [], p :: parts, hnext =>
      obtain ⟨rfl, rfl⟩ := Prod.mk.inj (Option.some.inj hnext)
      simp only [Todo.size, Todo.waiting, List.length_append, List.length_cons, List.length_nil,
        List.flatMap_cons] at hleft ⊢
      lia
  · have hlt := hcur r i rfl
    by_cases hused : used = 0
    · right
      rw [hused, Todo.next] at hnext
      simp only [Nat.zero_min, Nat.add_zero, List.take_zero, if_neg (Nat.not_le.mpr hlt)] at hnext
      exact ⟨(Prod.mk.inj (Option.some.inj hnext)).1.symm, hused, rfl⟩
    · left
      obtain ⟨ht', rfl⟩ := Prod.mk.inj (Option.some.inj hnext)
      have hwaiting : t'.waiting = Todo.waiting ⟨some (r, i), records, parts⟩ := by
        rw [← ht']
        rfl
      have hparts : t'.parts = parts := by rw [← ht']
      rw [List.length_take, List.length_drop] at hleft
      simp only [Todo.size, hwaiting, hparts]
      lia

def Ends (env : Env) (maxLength : Nat → Nat) (h : Hpaio) (left : List UInt8) (all : List Record) :
    Prop :=
  ∃ n, (after env maxLength h n).pageDone = true ∧
    (after env maxLength h n).taken = h.taken ++ left ∧
    ∀ i < n, (outcome env maxLength h i).status = .good ∧
      (after env maxLength h i).pageDone = false ∧
      (after env maxLength h i).taken <+: h.taken ++ left ∧
      ∀ input, (outcome env maxLength h i).input = some input → ∃ r ∈ all, input <:+ r.data

theorem Ends.of_step {used : Nat} {taken : List UInt8}
    (hh : Holds e h t) (hnext : t.next used = some (t', taken))
    (hsteps : Steps e used h t (pmlRead env (maxLength 0) h))
    (hrun : Ends env (fun k => maxLength (k + 1)) (pmlRead env (maxLength 0) h).h t'.left t'.all) :
    Ends env maxLength h t.left t.all := by
  obtain ⟨n, hdone, htaken, hcalls⟩ := hrun
  obtain ⟨hleft, hall⟩ := Todo.left_next hnext
  obtain ⟨-, htaken₁⟩ := hsteps.next _ _ hnext
  have hsum : (pmlRead env (maxLength 0) h).h.taken ++ t'.left = h.taken ++ t.left := by
    rw [htaken₁, hleft, List.append_assoc]
  rw [hsum] at htaken hcalls
  refine ⟨n + 1, ?_, ?_, fun i hi => ?_⟩
  · rw [after_succ]
    exact hdone
  · rw [after_succ]
    exact htaken
  · cases i with
    | zero =>
      refine ⟨hsteps.good, hh.pageDone, List.prefix_append _ _, fun input hinput => ?_⟩
      obtain ⟨r, k, hcur, rfl⟩ := hsteps.input input hinput
      exact ⟨r, by simp [Todo.all, hcur], List.drop_suffix k r.data⟩
    | succ i =>
      obtain ⟨hgood, hpage, hprefix, hinput⟩ := hcalls i (Nat.lt_of_succ_lt_succ hi)
      rw [after_succ, outcome_succ]
      refine ⟨hgood, hpage, hprefix, fun input hin => ?_⟩
      obtain ⟨r, hr, hsuffix⟩ := hinput input hin
      exact ⟨r, hall r hr, hsuffix⟩

theorem Todo.eq_of_next_none {used : Nat} (hnext : t.next used = none) : t = ⟨none, [], []⟩ := by
  obtain ⟨_ | ⟨r, i⟩, records, parts⟩ := t
  · match records, parts, hnext with
    | [], [], _ => rfl
  · cases hnext

theorem Ends.of_end {used : Nat} (hh : Holds e h t) (hnext : t.next used = none)
    (hsteps : Steps e used h t (pmlRead env (maxLength 0) h)) :
    Ends env maxLength h t.left t.all := by
  obtain ⟨hdone, htaken⟩ := hsteps.ends hnext
  have hnothing : t.left = [] := by
    rw [Todo.eq_of_next_none hnext]
    rfl
  refine ⟨1, hdone, by rw [hnothing, List.append_nil]; exact htaken, fun i hi => ?_⟩
  obtain rfl : i = 0 := by omega
  refine ⟨hsteps.good, hh.pageDone, List.prefix_append _ _, fun input hinput => ?_⟩
  obtain ⟨r, k, hcur, rfl⟩ := hsteps.input input hinput
  exact ⟨r, by simp [Todo.all, hcur], List.drop_suffix k r.data⟩

variable (maxLength) in
/-- **A page without empty records is read to its end.** -/
theorem Holds.ends (hworks : env.Works) (hh : Holds e h t) (hne : ∀ r ∈ t.all, r.data ≠ []) :
    Ends env maxLength h t.left t.all := by
  induction hsize : t.size using Nat.strong_induction_on generalizing h t maxLength with
  | _ k ih =>
    subst hsize
    -- the next call in which the pipeline uses something
    obtain ⟨m, hm, huses⟩ := hworks.uses h.ipCalls
    induction hd : m - h.ipCalls using Nat.strong_induction_on generalizing h maxLength with
    | _ d ihd =>
      have hsteps := hh.pmlRead hworks (maxLength 0)
      cases hnext : t.next (env.ip h.ipCalls).inputUsed with
      | none => exact Ends.of_end hh hnext hsteps
      | some next =>
        obtain ⟨t', taken⟩ := next
        have hh' := (hsteps.next _ _ hnext).1
        refine Ends.of_step hh hnext hsteps ?_
        rcases Todo.size_next hnext (fun r i hcur => (hh.current r i hcur).2.2) hne with
          hless | ⟨rfl, hzero, hcur⟩
        · exact ih _ hless _ hh' (fun r hr => hne r ((Todo.left_next hnext).2 r hr)) rfl
        · have hcalls := hsteps.calls
          rw [if_pos hcur] at hcalls
          have hother : m ≠ h.ipCalls := by
            rintro rfl
            lia
          exact ihd _ (by lia) _ hh' (by lia) rfl

variable (maxLength) in
theorem Holds.stuck (hworks : env.Works) (hh : Holds e h t) {r : Record} (hr : r ∈ t.waiting)
    (hempty : r.data = []) (n : Nat) : (after env maxLength h n).pageDone = false := by
  have hgoing : ∃ t, Holds e (after env maxLength h n) t ∧ r ∈ t.waiting := by
    induction n with
    | zero => exact ⟨t, hh, hr⟩
    | succ n ih =>
      obtain ⟨t, hh, hr⟩ := ih
      have hsteps := hh.pmlRead hworks (maxLength n)
      cases hnext : t.next (env.ip (after env maxLength h n).ipCalls).inputUsed with
      | none =>
        rw [Todo.eq_of_next_none hnext] at hr
        cases hr
      | some next =>
        obtain ⟨t', taken⟩ := next
        refine ⟨t', (hsteps.next _ _ hnext).1, ?_⟩
        obtain ⟨_ | ⟨r', i⟩, records, parts⟩ := t
        · match records, parts, hnext with
          | r' :: records, parts, hnext =>
            obtain ⟨rfl, -⟩ := Prod.mk.inj (Option.some.inj hnext)
            by_cases hempty' : r'.data = []
            · rw [if_pos hempty']
              exact hr
            · rw [if_neg hempty']
              have hne : r ≠ r' := by
                rintro rfl
                exact hempty' hempty
              exact (List.mem_cons.mp hr).resolve_left hne
          | [], p :: parts, hnext =>
            obtain ⟨rfl, -⟩ := Prod.mk.inj (Option.some.inj hnext)
            simpa [Todo.waiting] using hr
        · obtain ⟨rfl, -⟩ := Prod.mk.inj (Option.some.inj hnext)
          exact hr
  obtain ⟨t, hh, -⟩ := hgoing
  exact hh.pageDone

end Runs

/-! ## The page -/

def Page.todo (p : Page) : Todo := ⟨none, p.records, p.parts⟩

theorem pmlStart_eq (buf : Nat → UInt8) (fuel : Nat) (p : Page) :
    ∃ h, pmlStart buf (fuel + 1) p.bytes = some h ∧ h.taken = [] ∧ Holds p.last h p.todo := by
  obtain ⟨buf', hread, hbuf'⟩ := readMfpdtfBlock_eq buf p.firstBlock p.first_fits (by decide)
    (channelOf (blocksOf p.last p.parts))
  obtain ⟨hscan, f, hflag, hnew⟩ := p.newPage
  have hsize : p.firstBlock.size = sizeofFixedHeader
      + (sizeofStartPage + (recordBytes p.records ++ endBytes p.last p.parts).length) := by
    rw [Block.size, Page.firstBlock, List.length_append, StartPage.bytes, List.length_cons,
      p.start.length_eq]
  have hlarge : sizeofFixedHeader + sizeofStartPage ≤ p.firstBlock.size := by
    rw [hsize, ← Nat.add_assoc]
    exact Nat.le_add_right _ _
  have hsum : sizeofFixedHeader + sizeofStartPage = 44 := rfl
  -- the cells of the buffer
  have hcell : ∀ k < p.firstBlock.size, some (buf' k) = p.firstBlock.bytes[k]? := by
    intro k hk
    rw [← hbuf', slice_getElem? buf' 0 hk, Nat.zero_add]
  have hbytes : p.firstBlock.bytes = word32 p.firstBlock.size ++ (p.flags ++ p.firstBlock.content) :=
    List.append_assoc _ _ _
  have hword : (word32 p.firstBlock.size).length = 4 := rfl
  have htype : buf' 6 = 2 := by
    have := hcell 6 (by lia)
    rw [hbytes, List.getElem?_append_right (by lia), hword,
      List.getElem?_append_left (by rw [p.flags_length]; lia), hscan] at this
    exact Option.some.inj this
  have hpage : buf' 7 = f := by
    have := hcell 7 (by lia)
    rw [hbytes, List.getElem?_append_right (by lia), hword,
      List.getElem?_append_left (by rw [p.flags_length]; lia), hflag] at this
    exact Option.some.inj this
  have hid : buf' sizeofFixedHeader = 0 := by
    have := hcell sizeofFixedHeader (Nat.lt_of_lt_of_le (by decide) hlarge)
    rw [hbytes, List.getElem?_append_right (by rw [hword]; decide), hword,
      List.getElem?_append_right (by rw [p.flags_length]; decide), p.flags_length] at this
    exact Option.some.inj this
  -- what comes after the start of the page
  have hhere : slice buf' (sizeofFixedHeader + sizeofStartPage)
      (p.firstBlock.size - (sizeofFixedHeader + sizeofStartPage)) = p.todo.here p.last := by
    have hdrop := drop_slice buf' (i := 0) (j := sizeofFixedHeader + sizeofStartPage)
      (n := p.firstBlock.size) (by lia)
    have hfront : (word32 p.firstBlock.size ++ (p.flags ++ p.start.bytes)).length
        = sizeofFixedHeader + sizeofStartPage := by
      rw [List.length_append, hword, List.length_append, p.flags_length, StartPage.bytes,
        List.length_cons, p.start.length_eq]
      rfl
    have hsplit : p.firstBlock.bytes = word32 p.firstBlock.size ++ (p.flags ++ p.start.bytes)
        ++ (recordBytes p.records ++ endBytes p.last p.parts) := by
      rw [hbytes, Page.firstBlock]
      simp only [List.append_assoc]
    rw [Nat.zero_add] at hdrop
    rw [← hdrop, hbuf', hsplit, List.drop_left' hfront]
    rfl
  have hpos : ¬ (p.firstBlock.size : Int) ≤ 0 := by lia
  refine ⟨started buf' p.firstBlock.size (channelOf (blocksOf p.last p.parts)), ?_, rfl, ?_⟩
  · rw [pmlStart, Page.bytes, hread]
    simp only [if_neg hpos, htype, hpage, hid]
    rw [if_pos ⟨trivial, hnew⟩, if_neg (not_not.mpr rfl), Int.toNat_natCast]
  · exact ⟨hlarge, hhere, rfl,
      p.fits, fun _ => Nat.le_refl 0, (by rintro _ _ ⟨⟩), rfl, rfl⟩

/-- **When a page is read to its end**: no raster record is empty. -/
theorem page_read_iff (env : Env) (hworks : env.Works) (maxLength : Nat → Nat) (p : Page)
    (buf : Nat → UInt8) (fuel : Nat) :
    ∃ h, pmlStart buf (fuel + 1) p.bytes = some h ∧
      (IsRead env maxLength p h ↔ ∀ r ∈ p.allRecords, r.data ≠ []) := by
  obtain ⟨h, hstart, htaken, hholds⟩ := pmlStart_eq buf fuel p
  refine ⟨h, hstart, ?_⟩
  constructor
  · rintro ⟨n, hdone, -⟩ r hr hempty
    have hnot := hholds.stuck maxLength hworks hr hempty n
    rw [hdone] at hnot
    cases hnot
  · intro hne
    obtain ⟨n, hdone, hall, hcalls⟩ := hholds.ends maxLength hworks hne
    rw [htaken, List.nil_append] at hall hcalls
    exact ⟨n, hdone, hall, hcalls⟩

def onePage (data : List UInt8) (h : data.length ≤ 1) : Page where
  flags := [0, 0, 2, 1]
  start := ⟨List.replicate 35 0, List.length_replicate⟩
  records := [⟨0, data, by lia⟩]
  parts := []
  last := ⟨List.replicate 11 0, List.length_replicate⟩
  flags_length := rfl
  newPage := ⟨rfl, 1, rfl, by decide⟩
  first_fits := by
    have hroom : sizeofFixedHeader + 53 ≤ lenBuffer := by decide
    simp [StartPage.bytes, recordBytes, Record.bytes, word16, endBytes, EndPage.bytes]
    lia
  fits := nofun

def fourBytes : Env := ⟨fun _ => ⟨false, 4, 4⟩, fun _ => none⟩

theorem fourBytes_works : fourBytes.Works where
  noError _ := rfl
  progress _ := .inl (Nat.succ_le_succ (Nat.zero_le 3))
  uses n := ⟨n, Nat.le_refl n, Nat.succ_le_succ (Nat.zero_le 3)⟩

theorem page_read_iff_one :
    ∃ h, pmlStart (fun _ => 0) 1 (onePage [7] (by decide)).bytes = some h ∧
      (IsRead fourBytes (fun _ => 4) (onePage [7] (by decide)) h ↔
        ∀ r ∈ (onePage [7] (by decide)).allRecords, r.data ≠ []) :=
  page_read_iff fourBytes fourBytes_works (fun _ => 4) _ _ 0

/-- A page whose record is empty. -/
theorem empty_record_not_read :
    ∃ h, pmlStart (fun _ => 0) 1 (onePage [] (by decide)).bytes = some h ∧
      ¬ IsRead fourBytes (fun _ => 4) (onePage [] (by decide)) h := by
  obtain ⟨h, hstart, -, hholds⟩ := pmlStart_eq (fun _ => 0) 0 (onePage [] (by decide))
  refine ⟨h, hstart, ?_⟩
  rintro ⟨n, hdone, -⟩
  have hnot := hholds.stuck (fun _ => 4) fourBytes_works List.mem_cons_self rfl n
  rw [hdone] at hnot
  cases hnot

end Hplip.Sane.Pml
