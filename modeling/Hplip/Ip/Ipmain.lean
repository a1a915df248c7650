import Hplip.Lib.Loop
import Hplip.Lib.Slice
import Mathlib.Logic.Function.Basic

/-!
# The image processor (ipmain.c)

`ipConvert` runs a list of transforms: client input goes through the input genbuf into
the first one, rows go from one to the next through two mid-buffers, and what the last
one gives goes through the output genbuf to the client. The transforms are a table of
functions over a type of instances, as their interface (xform.h) has it; they do not
write into their input.

Allocations succeed, and no peek functions are installed. Positions are 32-bit values,
lengths of buffers are numbers.
-/

namespace Hplip.Ip

/-- The bytes reached through a `PBYTE`. -/
abbrev Bytes := Nat → UInt8

/-! ## Bits of a result -/

abbrev ipReadyForData : UInt16 := 0x0001
abbrev ipParsedHeader : UInt16 := 0x0002
abbrev ipConsumedRow : UInt16 := 0x0004
abbrev ipProducedRow : UInt16 := 0x0008
abbrev ipInputError : UInt16 := 0x0010
abbrev ipFatalError : UInt16 := 0x0020
abbrev ipNewInputPage : UInt16 := 0x0040
abbrev ipNewOutputPage : UInt16 := 0x0080
abbrev ipWriteInsertOk : UInt16 := 0x0100
abbrev ipDone : UInt16 := 0x0200

/-- `result & bits`, as a condition. -/
abbrev Has (result bits : UInt16) : Prop := result &&& bits ≠ 0

abbrev permanentResults : UInt16 := ipInputError ||| ipFatalError ||| ipDone

abbrev minGenbufLen : Nat := 4000

/-! ## Transforms -/

structure IpImageTraits where
  iPixelsPerRow : Int
  iBitsPerPixel : Int
  iComponentsPerPixel : Int
  lHorizDPI : Int
  lVertDPI : Int
  lNumRows : Int
  iNumPages : Int
  iPageNum : Int
  deriving DecidableEq

/-- What `getActualTraits` answers. -/
structure Parsed (σ : Type) where
  result : UInt16
  inUsed : Nat
  inNextPos : UInt32
  inTraits : IpImageTraits
  outTraits : IpImageTraits
  xform : σ

/-- What `convert` answers, with the output buffer after it. -/
structure Converted (σ : Type) where
  result : UInt16
  inUsed : Nat
  inNextPos : UInt32
  outUsed : Nat
  outThisPos : UInt32
  outBuf : Bytes
  xform : σ

/-- `IP_XFORM_TBL`, less what the main loop does not call; the specification that
`setXformSpec` hands over is the table's own. -/
structure XformTbl (σ : Type) where
  openXform : UInt16 × σ
  setDefaultInputTraits : σ → IpImageTraits → UInt16 × σ
  setXformSpec : σ → UInt16 × σ
  getHeaderBufSize : σ → UInt16 × Nat × σ
  getActualTraits : σ → Nat → Bytes → IpImageTraits → IpImageTraits → Parsed σ
  getActualBufSizes : σ → Nat × Nat × σ
  convert : σ → Nat → Option Bytes → Nat → Bytes → Converted σ
  newPage : σ → σ

inductive XformState
  | nonexistent
  | parsingHeader
  | converting
  | convNotRfd
  | flushing
  | done
  deriving DecidableEq, Repr

/-- `eState >= XS_CONVERTING`. -/
def XformState.IsConverting : XformState → Prop
  | .nonexistent => False
  | .parsingHeader => False
  | .converting => True
  | .convNotRfd => True
  | .flushing => True
  | .done => True

instance (s : XformState) : Decidable s.IsConverting := by
  cases s <;> (unfold XformState.IsConverting; infer_instance)

/-- `XFORM_INFO`, less its table and the peek functions. -/
structure XformInfo (σ : Type) where
  eState : XformState
  hXform : σ
  inTraits : IpImageTraits
  outTraits : IpImageTraits
  dwMinInBufLen : Nat
  dwMinOutBufLen : Nat

/-! ## Genbufs -/

structure GenBuf where
  pbBuf : Bytes
  dwBufLen : Nat
  dwValidStart : Nat
  dwValidLen : Nat
  dwFilePos : UInt32

/-- The valid data is moved to the left end if fewer than `n` bytes fit behind its start. -/
def GenBuf.leftJustify (b : GenBuf) (n : Nat) : GenBuf :=
  if b.dwBufLen - b.dwValidStart < n then
    { b with
      pbBuf := blit b.pbBuf 0 (fun k => b.pbBuf (b.dwValidStart + k)) b.dwValidLen
      dwValidStart := 0 }
  else b

/-- How many of `avail` bytes fit. -/
def GenBuf.room (b : GenBuf) (avail : Nat) : Nat :=
  min (b.dwBufLen - (b.dwValidStart + b.dwValidLen)) avail

/-- `n` bytes of `src` are put behind the valid data. -/
def GenBuf.fill (b : GenBuf) (src : Bytes) (n : Nat) : GenBuf :=
  { b with
    pbBuf := blit b.pbBuf (b.dwValidStart + b.dwValidLen) src n
    dwValidLen := b.dwValidLen + n }

/-- The first transform has consumed `used` bytes, and wants `next` to be read next. -/
def GenBuf.consume (b : GenBuf) (used : Nat) (next : UInt32) : GenBuf :=
  let b :=
    if used ≥ b.dwValidLen then { b with dwValidLen := 0, dwValidStart := 0, dwFilePos := next }
    else
      { b with
        dwValidLen := b.dwValidLen - used
        dwValidStart := b.dwValidStart + used
        dwFilePos := b.dwFilePos + UInt32.ofNat used }
  -- a position that does not match discards the remainder
  if b.dwFilePos ≠ next then { b with dwValidLen := 0, dwValidStart := 0, dwFilePos := next }
  else b

/-- A new block of `n` bytes with the valid data at its start; `fresh` is what it held. -/
def GenBuf.realloc (b : GenBuf) (fresh : Bytes) (n : Nat) : GenBuf :=
  { b with
    pbBuf := blit fresh 0 (fun k => b.pbBuf (b.dwValidStart + k)) b.dwValidLen
    dwBufLen := n
    dwValidStart := 0 }

/-! ## The instance -/

/-- `INST`; the array of transforms is a function of the index. -/
structure Inst (σ : Type) where
  gbIn : GenBuf
  gbOut : GenBuf
  pbMidInBuf : Bytes
  pbMidOutBuf : Bytes
  dwMidLen : Nat
  dwMidValidLen : Nat
  iOwner : Option Nat
  xfArray : Nat → XformInfo σ
  xfCount : Nat
  dwForcedHorizDPI : Nat
  dwForcedVertDPI : Nat
  wResultMask : UInt16
  lInRows : Int
  lOutRows : Int
  iInPages : Int
  iOutPages : Int
  pendingInsert : Bool

/-- A call of `getActualTraits` or `convert`, with what it answered. -/
structure Call where
  iXform : Nat
  eState : XformState
  inAvail : Nat
  inBuf : Option Bytes
  outAvail : Nat
  result : UInt16
  inUsed : Nat
  inNextPos : UInt32
  outUsed : Nat
  outThisPos : UInt32

/-- The variables of `ipConvert`, less those of the output; `log` has the calls of
transforms so far. -/
structure Core (σ : Type) where
  g : Inst σ
  inAvail : Nat
  inUsed : Nat
  inNextPos : UInt32
  ipResult : UInt16
  log : List Call

/-- How the main loop is left: `goto exitLoop`, or a failed `INSURE`. -/
structure Leave (σ : Type) where
  fatal : Bool
  core : Core σ

section Round

variable {σ : Type} (tbl : Nat → XformTbl σ) (fresh : Bytes) (input : Option Bytes)

def insure (p : Prop) [Decidable p] (c : Core σ) : Except (Leave σ) Unit :=
  if p then .ok () else .error ⟨true, c⟩

def Core.xform (c : Core σ) (i : Nat) : XformInfo σ := c.g.xfArray i

def Core.setXform (c : Core σ) (i : Nat) (x : XformInfo σ) : Core σ :=
  { c with g := { c.g with xfArray := Function.update c.g.xfArray i x } }

def Core.setIn (c : Core σ) (b : GenBuf) : Core σ := { c with g := { c.g with gbIn := b } }

/-- The transform to run: the owner of the input mid-buffer, else the last one that is
only outputting, else the first one that is not done. -/
def select (g : Inst σ) : Option Nat :=
  g.iOwner
    <|> (List.range g.xfCount).reverse.find? (fun i => (g.xfArray i).eState = .convNotRfd)
    <|> (List.range g.xfCount).find? (fun i => (g.xfArray i).eState ≠ .done)

def allDone (c : Core σ) : Core σ :=
  let last := c.g.xfCount - 1
  let c := c.setXform last { c.xform last with
    outTraits := { (c.xform last).outTraits with lNumRows := c.g.lOutRows } }
  let c := c.setXform 0 { c.xform 0 with
    inTraits := { (c.xform 0).inTraits with lNumRows := c.g.lInRows } }
  { c with inUsed := c.inAvail, ipResult := c.ipResult ||| ipDone }

def newTraits (g : Inst σ) (i : Nat) : IpImageTraits :=
  if i = 0 then (g.xfArray 0).inTraits
  else
    let traits := (g.xfArray (i - 1)).outTraits
    if i = g.xfCount - 1 then
      { traits with
        lHorizDPI := if g.dwForcedHorizDPI ≠ 0 then g.dwForcedHorizDPI else traits.lHorizDPI
        lVertDPI := if g.dwForcedVertDPI ≠ 0 then g.dwForcedVertDPI else traits.lVertDPI }
    else traits

def create (i : Nat) (c : Core σ) : Except (Leave σ) (Core σ) :=
  if (c.xform i).eState = .nonexistent then do
    insure (i = 0 ∨ (c.xform (i - 1)).eState.IsConverting) c
    let traits := newTraits c.g i
    let (opened, h) := (tbl i).openXform
    insure (opened = ipDone) c
    let (defaults, h) := (tbl i).setDefaultInputTraits h traits
    insure (defaults = ipDone) c
    let (spec, h) := (tbl i).setXformSpec h
    insure (spec = ipDone) c
    let (header, n, h) := (tbl i).getHeaderBufSize h
    insure (header = ipDone) c
    insure (i = 0 ∨ n = 0) c
    let n := if i = 0 ∧ n = 0 then 1 else n
    let c := c.setXform i
      { c.xform i with
        eState := .parsingHeader
        hXform := h
        inTraits := traits
        dwMinInBufLen := n }
    return if i = 0 then c.setIn ⟨fresh, n, 0, 0, 0⟩ else c
  else .ok c

def enterFlushing (i : Nat) (c : Core σ) : Core σ :=
  if (c.xform i).eState = .converting ∧
      ((i = 0 ∧ input.isNone ∧ c.g.gbIn.dwValidLen = 0) ∨
        (i ≠ 0 ∧ (c.xform (i - 1)).eState = .done ∧ c.g.iOwner.isNone)) then
    c.setXform i { c.xform i with eState := .flushing }
  else c

def NeedInput (c : Core σ) (i : Nat) : Prop :=
  (c.xform i).eState = .parsingHeader ∨ (c.xform i).eState = .converting

instance (c : Core σ) (i : Nat) : Decidable (NeedInput c i) := by
  unfold NeedInput
  infer_instance

def fillInput (src : Bytes) (c : Core σ) : Core σ :=
  let b := c.g.gbIn.leftJustify (c.xform 0).dwMinInBufLen
  let n := b.room c.inAvail
  { c.setIn (b.fill (fun k => src (c.inUsed + k)) n) with
    inAvail := c.inAvail - n
    inUsed := c.inUsed + n
    inNextPos := c.inNextPos + UInt32.ofNat n }

def takeInput (i : Nat) (c : Core σ) : Except (Leave σ) (Core σ) :=
  if NeedInput c i then
    if i ≠ 0 then do
      insure (c.g.iOwner.isSome ∧ 0 < c.g.dwMidValidLen) c
      return c
    else
      match input with
      | none => .ok c
      | some src =>
        let c := fillInput src c
        if c.g.gbIn.dwValidLen < (c.xform 0).dwMinInBufLen then .error ⟨false, c⟩ else .ok c
  else .ok c

def updateInput (i : Nat) (needInput : Prop) [Decidable needInput] (used : Nat) (next : UInt32)
    (c : Core σ) : Core σ :=
  -- a transform that is not the first one consumes the whole mid-buffer
  let c :=
    if 0 < used ∧ i ≠ 0 then { c with g := { c.g with iOwner := none, dwMidValidLen := 0 } } else c
  if needInput ∧ i = 0 then c.setIn (c.g.gbIn.consume used next) else c

def updateOutput (i used : Nat) (thisPos : UInt32) (c : Core σ) : Except (Leave σ) (Core σ) :=
  if 0 < used then
    if i = c.g.xfCount - 1 then
      .ok { c with g := { c.g with gbOut :=
        { c.g.gbOut with dwFilePos := thisPos, dwValidStart := 0, dwValidLen := used } } }
    else do
      insure c.g.iOwner.isNone c
      return { c with g := { c.g with
        iOwner := some (i + 1)
        pbMidInBuf := c.g.pbMidOutBuf
        pbMidOutBuf := c.g.pbMidInBuf
        dwMidValidLen := used } }
  else .ok c

def selectCnvState (i : Nat) (result : UInt16) (c : Core σ) : Core σ :=
  c.setXform i { c.xform i with
    eState := if Has result ipReadyForData then .converting else .convNotRfd }

/-- The mid-buffers grow to `n` bytes. -/
def growMidBufs (n : Nat) (c : Core σ) : Core σ :=
  if c.g.dwMidLen < n then
    { c with g := { c.g with
      pbMidInBuf := blit fresh 0 c.g.pbMidInBuf c.g.dwMidLen
      pbMidOutBuf := fresh
      dwMidLen := n } }
  else c

/-- A new input genbuf for the first transform, with the data of the old one. -/
def newInBuf (i minIn : Nat) (c : Core σ) : Core σ :=
  if i = 0 then
    c.setIn (c.g.gbIn.realloc fresh (max (max minIn minGenbufLen) c.g.gbIn.dwValidLen))
  else c

/-- The output genbuf of the last transform; the traits of all of them are known then. -/
def newOutBuf (i minOut : Nat) (c : Core σ) : Core σ :=
  if i = c.g.xfCount - 1 then
    { c with
      g := { c.g with gbOut :=
        { c.g.gbOut with
          pbBuf := fresh
          dwBufLen := max minOut minGenbufLen
          dwValidStart := 0
          dwValidLen := 0 } }
      ipResult := c.ipResult ||| ipParsedHeader }
  else c

def headerDone (i : Nat) (result : UInt16) (c : Core σ) : Core σ :=
  let (minIn, minOut, h) := (tbl i).getActualBufSizes (c.xform i).hXform
  let c := c.setXform i
    { c.xform i with hXform := h, dwMinInBufLen := minIn, dwMinOutBufLen := minOut }
  let c := newInBuf fresh i minIn c
  let n := if i = 0 then 0 else minIn
  let n := if i ≠ c.g.xfCount - 1 ∧ n < minOut then minOut else n
  let c := growMidBufs fresh n c
  let c := newOutBuf fresh i minOut c
  selectCnvState i result c

/-- `pbTheInBuf`, unless the transform is flushing. -/
def inputOf (i : Nat) (c : Core σ) : Bytes :=
  if i = 0 then fun k => c.g.gbIn.pbBuf (c.g.gbIn.dwValidStart + k) else c.g.pbMidInBuf

/-- `dwTheInLen`. -/
def inputLen (i : Nat) (c : Core σ) : Nat :=
  if i = 0 then c.g.gbIn.dwValidLen else c.g.dwMidValidLen

def Core.logCall (c : Core σ) (call : Call) : Core σ := { c with log := c.log ++ [call] }

/-- The state `XS_PARSING_HEADER`. -/
def parseHeader (i : Nat) (c : Core σ) : Except (Leave σ) (Core σ) := do
  let x := c.xform i
  let inBuf := inputOf i c
  let inLen := inputLen i c
  let r := (tbl i).getActualTraits x.hXform inLen inBuf x.inTraits x.outTraits
  let c := c.setXform i
    { x with hXform := r.xform, inTraits := r.inTraits, outTraits := r.outTraits }
  let c := c.logCall
    ⟨i, x.eState, inLen, some inBuf, 0, r.result, r.inUsed, r.inNextPos, 0, 0⟩
  insure (¬ Has r.result ipFatalError) c
  let c := updateInput i True r.inUsed r.inNextPos c
  return if Has r.result ipDone then headerDone tbl fresh i r.result c else c

def headBits (result : UInt16) (c : Core σ) : Core σ :=
  let c :=
    if Has result ipConsumedRow then
      { c with g := { c.g with lInRows := c.g.lInRows + 1 }
               ipResult := c.ipResult ||| ipConsumedRow }
    else c
  if Has result ipNewOutputPage then
    { c with g := { c.g with iInPages := c.g.iInPages + 1 }
             ipResult := c.ipResult ||| ipNewInputPage }
  else c

def tailBits (result : UInt16) (c : Core σ) : Core σ :=
  { c with
    ipResult := c.ipResult ||| (result &&& (ipProducedRow ||| ipNewOutputPage))
    g := { c.g with
      lOutRows := if Has result ipProducedRow then c.g.lOutRows + 1 else c.g.lOutRows
      iOutPages := if Has result ipNewOutputPage then c.g.iOutPages + 1 else c.g.iOutPages
      pendingInsert :=
        if Has (result &&& ipWriteInsertOk) c.g.wResultMask then true
        else c.g.pendingInsert } }

/-- The status bits of a conversion; the end of a page is told to the next transform. -/
def handleBits (i : Nat) (result : UInt16) (c : Core σ) : Core σ :=
  let c := if i = 0 then headBits result c else c
  if i = c.g.xfCount - 1 then tailBits result c
  else if Has result ipNewOutputPage then
    c.setXform (i + 1)
      { c.xform (i + 1) with hXform := (tbl (i + 1)).newPage (c.xform (i + 1)).hXform }
  else c

def nextState (i : Nat) (result : UInt16) (c : Core σ) : Core σ :=
  if Has result ipDone then c.setXform i { c.xform i with eState := .done }
  else if (c.xform i).eState ≠ .flushing then selectCnvState i result c
  else c

def Core.setOutBuf (c : Core σ) (i : Nat) (buf : Bytes) : Core σ :=
  if i = c.g.xfCount - 1 then
    { c with g := { c.g with gbOut := { c.g.gbOut with pbBuf := buf } } }
  else { c with g := { c.g with pbMidOutBuf := buf } }

/-- The states `XS_CONVERTING`, `XS_CONV_NOT_RFD` and `XS_FLUSHING`. -/
def convertRow (i : Nat) (c : Core σ) : Except (Leave σ) (Core σ) := do
  let x := c.xform i
  let inBuf := if x.eState = .flushing then none else some (inputOf i c)
  let inLen := inputLen i c
  let atTheTail := i = c.g.xfCount - 1
  let outBuf := if atTheTail then c.g.gbOut.pbBuf else c.g.pbMidOutBuf
  let outLen := if atTheTail then c.g.gbOut.dwBufLen else c.g.dwMidLen
  let r := (tbl i).convert x.hXform inLen inBuf outLen outBuf
  let c := (c.setXform i { x with hXform := r.xform }).setOutBuf i r.outBuf
  let c := c.logCall
    ⟨i, x.eState, inLen, inBuf, outLen, r.result, r.inUsed, r.inNextPos, r.outUsed, r.outThisPos⟩
  insure (¬ Has r.result ipFatalError) c
  let c := updateInput i (x.eState = .converting) r.inUsed r.inNextPos c
  let c ← updateOutput i r.outUsed r.outThisPos c
  return nextState i r.result (handleBits tbl i r.result c)

def runXform (i : Nat) (c : Core σ) : Except (Leave σ) (Core σ) := do
  let c ← create tbl fresh i c
  let c := enterFlushing input i c
  let c ← takeInput input i c
  insure (i = c.g.xfCount - 1 ∧ (c.xform i).eState ≠ .parsingHeader → c.g.gbOut.dwValidLen = 0) c
  if (c.xform i).eState = .parsingHeader then parseHeader tbl fresh i c
  else convertRow tbl i c

def process (c : Core σ) : Except (Leave σ) (Core σ) :=
  if Has c.ipResult c.g.wResultMask then .error ⟨false, c⟩
  else
    match select c.g with
    | none => .error ⟨false, allDone c⟩
    | some i => runXform tbl fresh input i c

end Round

/-! ## The output -/

/-- `dwOutputAvail`, the output buffer and what its two out-parameters point to:
one and the same variable when the output is discarded. -/
structure Out where
  discard : Bool
  avail : Nat
  used : UInt32
  thisPos : UInt32
  buf : Bytes

/-- `*pdwOutputUsed = v`. -/
def Out.setUsed (o : Out) (v : UInt32) : Out :=
  if o.discard then { o with used := v, thisPos := v } else { o with used := v }

/-- `*pdwOutputThisPos = v`. -/
def Out.setThisPos (o : Out) (v : UInt32) : Out :=
  if o.discard then { o with used := v, thisPos := v } else { o with thisPos := v }

def Out.refresh (b : GenBuf) (o : Out) : Out :=
  if o.used = 0 then o.setThisPos b.dwFilePos else o

/-- `n` bytes are written. -/
def Out.write (b : GenBuf) (o : Out) (n : Nat) : Out :=
  { o with
    buf :=
      if o.discard then o.buf
      else blit o.buf o.used.toNat (fun k => b.pbBuf (b.dwValidStart + k)) n
    avail := o.avail - n }.setUsed (o.used + UInt32.ofNat n)

/-- The output genbuf is emptied into the client's buffer, as far as it fits; the flag
says that the loop goes on. -/
def emptyOut (b : GenBuf) (o : Out) : Bool × GenBuf × Out :=
  let o := o.refresh b
  if b.dwValidLen ≠ 0 then
    if o.thisPos + o.used ≠ b.dwFilePos then (false, b, o)
    else
      let n := min b.dwValidLen o.avail
      let b' := { b with
        dwValidStart := b.dwValidStart + n
        dwFilePos := b.dwFilePos + UInt32.ofNat n
        dwValidLen := b.dwValidLen - n }
      if b'.dwValidLen ≠ 0 then (false, b', o.write b n)
      else (true, { b' with dwValidStart := 0 }, o.write b n)
  else (true, b, o)

section Convert

variable {σ : Type} (tbl : Nat → XformTbl σ) (fresh : Bytes) (input : Option Bytes)

def insertOk (c : Core σ) : Core σ :=
  if c.g.pendingInsert then
    { c with g := { c.g with pendingInsert := false }, ipResult := c.ipResult ||| ipWriteInsertOk }
  else c

def writeOut (s : Core σ × Out) : Bool × Core σ × Out :=
  match emptyOut s.1.g.gbOut s.2 with
  | (true, b, o) => (true, insertOk { s.1 with g := { s.1.g with gbOut := b } }, o)
  | (false, b, o) => (false, { s.1 with g := { s.1.g with gbOut := b } }, o)

def round (s : Core σ × Out) : (Core σ × Out) ⊕ (Leave σ × Out) :=
  match writeOut s with
  | (false, c, o) => .inr (⟨false, c⟩, o)
  | (true, c, o) =>
    match process tbl fresh input c with
    | .ok c => .inl (c, o)
    | .error e => .inr (e, o)

/-- What `ipConvert` leaves behind. -/
structure Result (σ : Type) where
  status : UInt16
  g : Inst σ
  inUsed : Nat
  inNextPos : UInt32
  out : Out
  log : List Call

def exitLoop (e : Leave σ × Out) : Result σ :=
  let c := e.1.core
  if e.1.fatal then ⟨ipFatalError, c.g, c.inUsed, c.inNextPos, e.2, c.log⟩
  else
    let ipResult :=
      if (c.xform (c.g.xfCount - 1)).eState.IsConverting then c.ipResult ||| ipParsedHeader
      else c.ipResult
    ⟨ipResult &&& c.g.wResultMask, c.g, c.inUsed,
      c.g.gbIn.dwFilePos + UInt32.ofNat c.g.gbIn.dwValidLen, e.2, c.log⟩

/-- `pbOutputBuf`, and what the client passes with it: `none` is `NULL`. -/
def openOut : Option (Bytes × Nat) → Out
  | none => ⟨true, 0xfffffff, 0, 0, fun _ => 0⟩
  | some (buf, avail) => ⟨false, avail, 0, 0, buf⟩

/-- `ipConvert`, up to a number of rounds: where the main loop is then, or what the call
leaves behind. The log goes on from the calls before. -/
def ipConvert (n : Nat) (g : Inst σ) (log : List Call) (inAvail : Nat) (inNextPos : UInt32)
    (output : Option (Bytes × Nat)) : Core σ ⊕ Result σ :=
  (Loop.rounds (round tbl fresh input) n
    (⟨g, inAvail, 0, inNextPos, 0, log⟩, openOut output)).map Prod.fst exitLoop

end Convert

/-- `ipOpen`; `null` is a handle of zeros, and so are the traits. -/
def ipOpen {σ : Type} (xfCount : Nat) (null : σ) : Inst σ where
  gbIn := ⟨fun _ => 0, 0, 0, 0, 0⟩
  gbOut := ⟨fun _ => 0, 0, 0, 0, 0⟩
  pbMidInBuf := fun _ => 0
  pbMidOutBuf := fun _ => 0
  dwMidLen := 0
  dwMidValidLen := 0
  iOwner := none
  xfArray := fun _ =>
    ⟨.nonexistent, null, ⟨0, 0, 0, 0, 0, 0, 0, 0⟩, ⟨0, 0, 0, 0, 0, 0, 0, 0⟩, 0, 0⟩
  xfCount := xfCount
  dwForcedHorizDPI := 0
  dwForcedVertDPI := 0
  wResultMask := permanentResults
  lInRows := 0
  lOutRows := 0
  iInPages := 0
  iOutPages := 0
  pendingInsert := false

def ipResultMask {σ : Type} (g : Inst σ) (wMask : UInt16) : Inst σ :=
  { g with wResultMask := wMask ||| permanentResults }

def fixedDPI (dpi : Int) : Int := if dpi < 0x10000 then dpi * 65536 else dpi

/-- `ipSetDefaultInputTraits`, before the first transform is created. -/
def ipSetDefaultInputTraits {σ : Type} (g : Inst σ) (traits : IpImageTraits) : Inst σ :=
  let inTraits := { traits with
    lHorizDPI := fixedDPI traits.lHorizDPI
    lVertDPI := fixedDPI traits.lVertDPI }
  let x := { g.xfArray 0 with inTraits := inTraits }
  { g with xfArray := Function.update g.xfArray 0 x }

end Hplip.Ip
