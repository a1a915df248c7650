import Mathlib
import Hplip.Lib.CommandStream
import Hplip.Lib.Loop

/-!
# Words compressed for LIDIL (LidilCompress.cpp)

A record of words is written as literals and runs. The scanner does not decide on a run before
it ends: a short one goes back into the literal around it, which costs nothing as the literal is
a pointer into the record and a count.

A pointer into the record is the number of words before it. `m_out_array` is known from the word
8 on, as far as it is written: it is written from the front, and each word once.
-/

namespace Hplip.Hpcups.LidilCompress

open Loop CommandStream

/-! ## The compressor -/

inductive LdlCompMode
  | inNot
  | inFirst
  | inImage
  | inCopy
  deriving DecidableEq

def fill0000Cmd : UInt16 := 0x1000

def fillFfffCmd : UInt16 := 0x2000

def fillNextCmd : UInt16 := 0x3000

def fillImageCmd : UInt16 := 0x4000

def maxRunlength : UInt16 := 5

/-- The words of `m_out_array`. -/
def outWords : Nat := 2048 + 16

/-- `LidilCompress`; `out` is what was written to `m_out_array`, from the word 8 on. -/
structure State where
  out : List UInt16
  imagePtr : Nat
  outCnt : UInt16
  imageCnt : UInt16
  copyCnt : UInt16
  rawData : List UInt16
  runLength : UInt16
  dataLength : UInt16

def init (g : State) (data : List UInt16) (datasize : UInt16) : State :=
  { g with imagePtr := 0, rawData := data, dataLength := datasize, runLength := maxRunlength }

/-- `GetFrameInfo`: the size. -/
def getFrameInfo (g : State) : UInt16 := g.outCnt

/-- `*m_out_ptr++ = word`. -/
def put (g : State) (word : UInt16) : Option State := do
  check (8 + g.out.length < outWords)
  some { g with out := g.out ++ [word] }

/-- `*m_out_ptr++ = *from_ptr++`, `n` times. -/
def putFrom (g : State) (fromPtr : Nat) : Nat → Option State
  | 0 => some g
  | n + 1 => do
    let word ← g.rawData[fromPtr]?
    let g ← put g word
    putFrom g (fromPtr + 1) n

def flushImage (g : State) : Option (State × UInt16) :=
  let wsize := g.imageCnt
  if wsize ≠ 0 then do
    let g ← put g (fillImageCmd ||| (wsize - 1))
    let g ← putFrom g g.imagePtr wsize.toNat
    let bsize := (g.imageCnt + 1) * 2
    some ({ g with outCnt := g.outCnt + bsize, imageCnt := 0 }, bsize)
  else some (g, 0)

def flushCopy (g : State) (value : UInt16) : Option (State × UInt16) :=
  if g.copyCnt ≠ 0 then
    if value = 0 then do
      let g ← put g (fill0000Cmd ||| (g.copyCnt - 1))
      some ({ g with outCnt := g.outCnt + 2, copyCnt := 0 }, 2)
    else if value = 0xFFFF then do
      let g ← put g (fillFfffCmd ||| (g.copyCnt - 1))
      some ({ g with outCnt := g.outCnt + 2, copyCnt := 0 }, 2)
    else do
      let g ← put g (fillNextCmd ||| (g.copyCnt - 1))
      let g ← put g value
      some ({ g with outCnt := g.outCnt + 4, copyCnt := 0 }, 4)
  else some (g, 0)

/-- The locals of `CompressData`, beside the object. -/
structure Locals where
  g : State
  i : Int
  inPtr : Nat
  last : UInt16
  copyItem : UInt16
  mode : LdlCompMode

def dispatch (s : Locals) (word : UInt16) : Option Locals :=
  match s.mode with
  | .inNot =>
    some { s with
      last := word
      mode := .inFirst
      g := { s.g with imagePtr := s.inPtr, imageCnt := 1 } }
  | .inFirst =>
    if s.last = word then
      some { s with
        mode := .inCopy
        copyItem := word
        g := { s.g with copyCnt := 2, imageCnt := 0 } }
    else
      some { s with
        mode := .inImage
        last := word
        g := { s.g with imageCnt := s.g.imageCnt + 1 } }
  | .inCopy =>
    if s.last = word then
      some { s with g := { s.g with copyCnt := s.g.copyCnt + 1 } }
    else if s.g.copyCnt ≤ s.g.runLength then
      -- the run becomes a part of the literal, or the start of one
      let imagePtr := if s.g.imageCnt = 0 then s.inPtr - s.g.copyCnt.toNat else s.g.imagePtr
      some { s with
        mode := .inImage
        last := word
        g := { s.g with
          imagePtr := imagePtr
          imageCnt := s.g.imageCnt + (1 + s.g.copyCnt)
          copyCnt := 0 } }
    else do
      let (g, _) ← flushImage s.g
      let (g, _) ← flushCopy g s.copyItem
      some { s with
        mode := .inImage
        last := word
        g := { g with imagePtr := s.inPtr, imageCnt := 1 } }
  | .inImage =>
    if s.last = word then
      some { s with
        mode := .inCopy
        copyItem := word
        g := { s.g with imageCnt := s.g.imageCnt - 1, copyCnt := 2 } }
    else
      some { s with
        last := word
        g := { s.g with imageCnt := s.g.imageCnt + 1 } }

/-- A turn of the main loop. The counter has 16 bits and a sign, and is compared as an `int`. -/
def turn (s : Locals) : Option (Locals ⊕ Locals) :=
  if s.i < s.g.dataLength.toNat then do
    let word ← s.g.rawData[s.inPtr]?
    let s ← dispatch s word
    some (.inl { s with i := (s.i + 2).bmod (2 ^ 16), inPtr := s.inPtr + 1 })
  else some (.inr s)

def finish (s : Locals) : Option State :=
  match s.mode with
  | .inCopy => do
    let (g, _) ← flushImage s.g
    let (g, _) ← flushCopy g s.copyItem
    some g
  | .inImage | .inFirst => do
    let (g, _) ← flushImage s.g
    some g
  | .inNot => some s.g

/-- `CompressData`. Every turn reads one more word of the record. -/
def compressData (g : State) : Option State := do
  let g := { g with out := [], outCnt := 0, imageCnt := 0, copyCnt := 0 }
  let s ← loop turn (g.rawData.length + 1) ⟨g, 0, 0, 0, 0, .inNot⟩
  finish s

/-! ## The printer's side -/

def decodeStep : Step (List UInt16) UInt16
  | _, [] => none
  | done, c :: ws =>
    let n := c.toNat % 0x1000 + 1
    match c.toNat / 0x1000 with
    | 1 => some (done ++ List.replicate n 0, ws)
    | 2 => some (done ++ List.replicate n 0xFFFF, ws)
    | 3 =>
      match ws with
      | [] => none
      | w :: ws => some (done ++ List.replicate n w, ws)
    | 4 => do
      check (n ≤ ws.length)
      some (done ++ ws.take n, ws.drop n)
    | _ => none

def decodeWords (ws : List UInt16) : Option (List UInt16) := decode decodeStep ws.length [] ws

/-! ## Commands -/

theorem toNat_command (cmd : UInt16) {cnt : UInt16} (k : Nat) (hcmd : cmd.toNat = k <<< 12)
    (hpos : 1 ≤ cnt.toNat) (hcnt : cnt.toNat ≤ 2048) :
    (cmd ||| (cnt - 1)).toNat / 0x1000 = k ∧
      (cmd ||| (cnt - 1)).toNat % 0x1000 + 1 = cnt.toNat := by
  have hpred : (cnt - 1).toNat = cnt.toNat - 1 :=
    UInt16.toNat_sub_of_le _ _ (UInt16.le_iff_toNat_le.mpr hpos)
  have hlt : cnt.toNat - 1 < 2 ^ 12 := by omega
  have hvalue : (cmd ||| (cnt - 1)).toNat = k * 2 ^ 12 + (cnt.toNat - 1) := by
    rw [UInt16.toNat_or, hcmd, hpred, ← Nat.shiftLeft_add_eq_or_of_lt hlt, Nat.shiftLeft_eq]
  rw [hvalue]
  omega

theorem decodeStep_image (done part rest : List UInt16) {cnt : UInt16}
    (hpart : part.length = cnt.toNat) (hpos : 1 ≤ cnt.toNat) (hcnt : cnt.toNat ≤ 2048) :
    decodeStep done ((fillImageCmd ||| (cnt - 1)) :: (part ++ rest))
      = some (done ++ part, rest) := by
  obtain ⟨hcmd, hn⟩ := toNat_command fillImageCmd 4 rfl hpos hcnt
  have hroom : cnt.toNat ≤ (part ++ rest).length := by
    rw [List.length_append]
    omega
  unfold decodeStep
  dsimp only
  rw [hcmd, hn, check_pos hroom]
  show some (done ++ (part ++ rest).take cnt.toNat, (part ++ rest).drop cnt.toNat) = _
  rw [List.take_left' hpart, List.drop_left' hpart]

/-- The words of `FlushCopy`. -/
def copyWords (cnt value : UInt16) : List UInt16 :=
  if value = 0 then [fill0000Cmd ||| (cnt - 1)]
  else if value = 0xFFFF then [fillFfffCmd ||| (cnt - 1)]
  else [fillNextCmd ||| (cnt - 1), value]

theorem length_copyWords (cnt value : UInt16) :
    1 ≤ (copyWords cnt value).length ∧ (copyWords cnt value).length ≤ 2 := by
  unfold copyWords
  split
  · exact ⟨Nat.le_refl 1, Nat.le_succ 1⟩
  · split
    · exact ⟨Nat.le_refl 1, Nat.le_succ 1⟩
    · exact ⟨Nat.le_succ 1, Nat.le_refl 2⟩

theorem decodeStep_copy (done rest : List UInt16) (value : UInt16) {cnt : UInt16}
    (hpos : 1 ≤ cnt.toNat) (hcnt : cnt.toNat ≤ 2048) :
    decodeStep done (copyWords cnt value ++ rest)
      = some (done ++ List.replicate cnt.toNat value, rest) := by
  unfold copyWords
  by_cases hzero : value = 0
  · obtain ⟨hcmd, hn⟩ := toNat_command fill0000Cmd 1 rfl hpos hcnt
    rw [if_pos hzero, List.singleton_append, hzero]
    unfold decodeStep
    dsimp only
    rw [hcmd, hn]
    rfl
  · rw [if_neg hzero]
    by_cases hones : value = 0xFFFF
    · obtain ⟨hcmd, hn⟩ := toNat_command fillFfffCmd 2 rfl hpos hcnt
      rw [if_pos hones, List.singleton_append, hones]
      unfold decodeStep
      dsimp only
      rw [hcmd, hn]
      rfl
    · obtain ⟨hcmd, hn⟩ := toNat_command fillNextCmd 3 rfl hpos hcnt
      rw [if_neg hones, List.cons_append, List.singleton_append]
      unfold decodeStep
      dsimp only
      rw [hcmd, hn]
      rfl

/-! ## Writing -/

theorem put_eq {g : State} {word : UInt16} (h : 8 + g.out.length < outWords) :
    put g word = some { g with out := g.out ++ [word] } := by
  rw [put, check_pos h]
  rfl

theorem putFrom_eq {g : State} {p n : Nat} (hfits : p + n ≤ g.rawData.length)
    (hroom : 8 + (g.out.length + n) ≤ outWords) :
    putFrom g p n = some { g with out := g.out ++ (g.rawData.drop p).take n } := by
  induction n generalizing g p with
  | zero => rw [putFrom, List.take_zero, List.append_nil]
  | succ n ih =>
    have hlt : p < g.rawData.length := by omega
    rw [putFrom, List.getElem?_eq_getElem hlt, List.drop_eq_getElem_cons hlt, List.take_succ_cons]
    show (do
      let g' ← put g g.rawData[p]
      putFrom g' (p + 1) n) = _
    rw [put_eq (by omega)]
    show putFrom { g with out := g.out ++ [g.rawData[p]] } (p + 1) n = _
    rw [ih (by show p + 1 + n ≤ g.rawData.length; omega)
      (by show 8 + ((g.out ++ [g.rawData[p]]).length + n) ≤ outWords
          rw [List.length_append, List.length_singleton]
          omega)]
    show some { g with out := g.out ++ [g.rawData[p]] ++ (g.rawData.drop (p + 1)).take n } = _
    rw [List.append_assoc, List.singleton_append]

variable {data : List UInt16} {f : Nat} {g : State}

/-- The words that are out stand for the first `f` of the record. -/
structure Flushed (data : List UInt16) (f : Nat) (g : State) : Prop where
  raw : g.rawData = data
  length : g.dataLength.toNat = 2 * data.length
  run : g.runLength = maxRunlength
  takes : Takes decodeStep [] g.out (data.take f)
  cnt : g.outCnt.toNat = 2 * g.out.length

theorem flushImage_spec (h : Flushed data f g) (hdata : data.length ≤ 2048)
    (hptr : g.imageCnt ≠ 0 → g.imagePtr = f) (hfits : f + g.imageCnt.toNat ≤ data.length)
    (hshort : g.out.length ≤ f) : Returns (flushImage g) fun r =>
      Flushed data (f + g.imageCnt.toNat) r.1 ∧ r.1.imageCnt = 0 ∧ r.1.copyCnt = g.copyCnt ∧
        r.1.out.length ≤ f + g.imageCnt.toNat + 1 := by
  unfold flushImage
  refine Returns.ite (fun hne => ?_) (fun hzero => ?_)
  · have hpos : 1 ≤ g.imageCnt.toNat :=
      Nat.pos_of_ne_zero fun h0 => hne (UInt16.toNat_inj.mp h0)
    have hroom : 8 + (g.out.length + 1 + g.imageCnt.toNat) ≤ outWords := by
      unfold outWords
      omega
    refine Returns.bind (P := (· = { g with out := g.out ++ [fillImageCmd ||| (g.imageCnt - 1)] }))
      ⟨_, put_eq (by omega), rfl⟩ ?_
    rintro _ rfl
    refine Returns.bind (P := (· = { g with out := g.out ++
        ((fillImageCmd ||| (g.imageCnt - 1)) :: (data.drop f).take g.imageCnt.toNat) })) ?_ ?_
    · refine ⟨_, putFrom_eq ?_ ?_, ?_⟩
      · show g.imagePtr + g.imageCnt.toNat ≤ g.rawData.length
        rw [hptr hne, h.raw]
        exact hfits
      · show 8 + ((g.out ++ [_]).length + g.imageCnt.toNat) ≤ outWords
        rw [List.length_append]
        exact hroom
      · show { g with out := _ } = _
        rw [hptr hne, h.raw, List.append_assoc, List.singleton_append]
    · rintro _ rfl
      have hpart : ((data.drop f).take g.imageCnt.toNat).length = g.imageCnt.toNat := by
        rw [List.length_take, List.length_drop]
        omega
      have hcnt := h.cnt
      refine Returns.pure ⟨⟨h.raw, h.length, h.run, ?_, ?_⟩, rfl, rfl, ?_⟩
      · refine h.takes.snoc (List.cons_ne_nil _ _) fun rest => ?_
        rw [List.cons_append, decodeStep_image _ _ _ hpart hpos (by omega), List.take_add]
      · show (g.outCnt + (g.imageCnt + 1) * 2).toNat = 2 * (g.out ++ _ :: _).length
        rw [List.length_append, List.length_cons, hpart, UInt16.toNat_add, UInt16.toNat_mul,
          UInt16.toNat_add]
        show (_ + (_ + 1) % _ * 2 % _) % _ = _
        omega
      · show (g.out ++ _ :: _).length ≤ _
        rw [List.length_append, List.length_cons, hpart]
        omega
  · have h0 : g.imageCnt = 0 := Decidable.not_not.mp hzero
    rw [h0]
    exact Returns.pure ⟨h, h0, rfl, Nat.le_succ_of_le hshort⟩

theorem flushCopy_spec {value : UInt16} (h : Flushed data f g) (hdata : data.length ≤ 2048)
    (hne : g.copyCnt ≠ 0) (hfits : f + g.copyCnt.toNat ≤ data.length)
    (hrun : (data.drop f).take g.copyCnt.toNat = List.replicate g.copyCnt.toNat value)
    (hshort : g.out.length ≤ f + 1) : Returns (flushCopy g value) fun r =>
      Flushed data (f + g.copyCnt.toNat) r.1 ∧ r.1.imageCnt = g.imageCnt ∧ r.1.copyCnt = 0 ∧
        r.1.out.length ≤ g.out.length + 2 := by
  have hpos : 1 ≤ g.copyCnt.toNat := Nat.pos_of_ne_zero fun h0 => hne (UInt16.toNat_inj.mp h0)
  have hroom : 8 + (g.out.length + 2) ≤ outWords := by
    unfold outWords
    omega
  obtain ⟨hone, htwo⟩ := length_copyWords g.copyCnt value
  have hwrites : ∃ size, flushCopy g value = some ({ g with
      out := g.out ++ copyWords g.copyCnt value
      outCnt := g.outCnt + UInt16.ofNat (2 * (copyWords g.copyCnt value).length)
      copyCnt := 0 }, size) := by
    unfold flushCopy copyWords
    rw [if_pos hne]
    by_cases hzero : value = 0
    · rw [if_pos hzero, if_pos hzero, put_eq (by omega)]
      exact ⟨_, rfl⟩
    · rw [if_neg hzero, if_neg hzero]
      by_cases hones : value = 0xFFFF
      · rw [if_pos hones, if_pos hones, put_eq (by omega)]
        exact ⟨_, rfl⟩
      · rw [if_neg hones, if_neg hones, put_eq (by omega)]
        refine ⟨4, ?_⟩
        show (do
          let g' ← put { g with out := g.out ++ [_] } value
          some ({ g' with outCnt := g'.outCnt + 4, copyCnt := 0 }, (4 : UInt16))) = _
        rw [put_eq (by
          show 8 + (g.out ++ [_]).length < outWords
          rw [List.length_append]
          exact hroom)]
        show some ({ g with out := g.out ++ [_] ++ [_], outCnt := _, copyCnt := 0 }, _) = _
        rw [List.append_assoc]
        rfl
  obtain ⟨size, heq⟩ := hwrites
  have hcnt := h.cnt
  refine ⟨_, heq, ⟨h.raw, h.length, h.run, ?_, ?_⟩, rfl, rfl, ?_⟩
  · refine h.takes.snoc (List.ne_nil_of_length_pos hone) fun rest => ?_
    rw [decodeStep_copy _ _ _ hpos (by omega), List.take_add, hrun]
  · show (g.outCnt + UInt16.ofNat _).toNat = 2 * (g.out ++ copyWords g.copyCnt value).length
    rw [List.length_append, UInt16.toNat_add, UInt16.toNat_ofNat']
    omega
  · show (g.out ++ copyWords g.copyCnt value).length ≤ _
    rw [List.length_append]
    omega

/-! ## The scanner -/

def Scanned (data : List UInt16) (s : Locals) : Prop :=
  match s.mode with
  | .inNot => s.inPtr = 0
  | .inFirst => s.g.imageCnt.toNat = 1 ∧ s.g.copyCnt = 0 ∧ data[s.inPtr - 1]? = some s.last
  | .inImage => 1 ≤ s.g.imageCnt.toNat ∧ s.g.copyCnt = 0 ∧ data[s.inPtr - 1]? = some s.last
  | .inCopy => 2 ≤ s.g.copyCnt.toNat ∧ s.last = s.copyItem ∧
      (data.drop (s.inPtr - s.g.copyCnt.toNat)).take s.g.copyCnt.toNat
        = List.replicate s.g.copyCnt.toNat s.copyItem

/-- The invariant of the loop: behind the words that are out come those of the literal, then
those of the run, and then the word that is read next. -/
structure Inv (data : List UInt16) (f : Nat) (s : Locals) : Prop where
  flushed : Flushed data f s.g
  short : s.g.out.length ≤ f
  counter : s.i = 2 * s.inPtr
  pending : f + s.g.imageCnt.toNat + s.g.copyCnt.toNat = s.inPtr
  fits : s.inPtr ≤ data.length
  image : s.g.imageCnt ≠ 0 → s.g.imagePtr = f
  scanned : Scanned data s

variable {s : Locals}

theorem take_pair {p : Nat} {word : UInt16} (hpos : 1 ≤ p) (hlast : data[p - 1]? = some word)
    (hnext : data[p]? = some word) :
    (data.drop (p + 1 - 2)).take 2 = List.replicate 2 word := by
  obtain ⟨p, rfl⟩ := Nat.exists_eq_add_of_le' hpos
  have hlast : data[p]? = some word := hlast
  obtain ⟨hlt, hget⟩ := List.getElem?_eq_some_iff.mp hlast
  obtain ⟨hlt', hget'⟩ := List.getElem?_eq_some_iff.mp hnext
  rw [show p + 1 + 1 - 2 = p from rfl, List.drop_eq_getElem_cons hlt, List.take_succ_cons,
    List.drop_eq_getElem_cons hlt', List.take_succ_cons, List.take_zero, hget, hget']
  rfl

theorem take_run {p n : Nat} {word : UInt16} (hle : n ≤ p)
    (hrun : (data.drop (p - n)).take n = List.replicate n word) (hnext : data[p]? = some word) :
    (data.drop (p + 1 - (n + 1))).take (n + 1) = List.replicate (n + 1) word := by
  rw [Nat.add_sub_add_right, List.take_add_one, hrun, List.getElem?_drop, Nat.sub_add_cancel hle,
    hnext, List.replicate_succ']
  rfl

theorem flushBoth_spec (hdata : data.length ≤ 2048) (h : Inv data f s) (hmode : s.mode = .inCopy)
    {α : Type} {k : State → Option α} {Q : α → Prop}
    (hk : ∀ g, Flushed data s.inPtr g → g.imageCnt = 0 → g.copyCnt = 0 →
      g.out.length + s.g.copyCnt.toNat ≤ s.inPtr + 3 → Returns (k g) Q) :
    Returns (do
      let (g, _) ← flushImage s.g
      let (g, _) ← flushCopy g s.copyItem
      k g) Q := by
  have hpending := h.pending
  have hfits := h.fits
  obtain ⟨htwo, -, hrun⟩ : 2 ≤ s.g.copyCnt.toNat ∧ s.last = s.copyItem ∧ _ := by
    have hscanned := h.scanned
    rw [Scanned, hmode] at hscanned
    exact hscanned
  refine Returns.bind (flushImage_spec h.flushed hdata h.image (by omega) h.short) ?_
  rintro ⟨g, _⟩ ⟨hg, himage, hcopy, hlen⟩
  have hstart : s.inPtr - s.g.copyCnt.toNat = f + s.g.imageCnt.toNat := by omega
  rw [hstart, ← hcopy] at hrun
  have hne : g.copyCnt ≠ 0 := by
    intro h0
    rw [← hcopy, h0] at htwo
    exact absurd htwo (by decide)
  refine Returns.bind (flushCopy_spec hg hdata hne (by rw [hcopy]; omega) hrun hlen) ?_
  rintro ⟨g', _⟩ ⟨hg', himage', hcopy', hlen'⟩
  have hlen : g.out.length ≤ f + s.g.imageCnt.toNat + 1 := hlen
  have hlen' : g'.out.length ≤ g.out.length + 2 := hlen'
  rw [hcopy, hpending] at hg'
  exact hk g' hg' (himage'.trans himage) hcopy' (by omega)

def Locals.next (s : Locals) : Locals :=
  { s with i := (s.i + 2).bmod (2 ^ 16), inPtr := s.inPtr + 1 }

theorem counter_next (hdata : data.length ≤ 2048) (h : s.i = 2 * s.inPtr)
    (hlt : s.inPtr < data.length) : s.next.i = 2 * s.next.inPtr := by
  show (s.i + 2).bmod (2 ^ 16) = 2 * ((s.inPtr + 1 : Nat) : Int)
  rw [Int.bmod_def]
  omega

theorem toNat_succ {x : UInt16} (h : x.toNat ≤ 2048) : (x + 1).toNat = x.toNat + 1 := by
  rw [UInt16.toNat_add]
  show (x.toNat + 1) % 2 ^ 16 = x.toNat + 1
  omega

theorem ne_zero_of_toNat {x : UInt16} (h : 1 ≤ x.toNat) : x ≠ 0 := by
  rintro rfl
  exact absurd h (by decide)

theorem Flushed.with_counts (h : Flushed data f g) (p : Nat) (image copy : UInt16) :
    Flushed data f { g with imagePtr := p, imageCnt := image, copyCnt := copy } :=
  ⟨h.raw, h.length, h.run, h.takes, h.cnt⟩

theorem Inv.advance {f' : Nat} {s' : Locals} (h : Inv data f s) (hdata : data.length ≤ 2048)
    (hlt : s.inPtr < data.length) (hi : s'.i = s.i) (hin : s'.inPtr = s.inPtr)
    (hflushed : Flushed data f' s'.g) (hshort : s'.g.out.length ≤ f')
    (hpending : f' + s'.g.imageCnt.toNat + s'.g.copyCnt.toNat = s.inPtr + 1)
    (himage : s'.g.imageCnt ≠ 0 → s'.g.imagePtr = f') (hscanned : Scanned data s'.next) :
    Inv data f' s'.next where
  flushed := hflushed
  short := hshort
  counter := counter_next hdata (by rw [hi, hin]; exact h.counter) (by rw [hin]; exact hlt)
  pending := hpending.trans (congrArg (· + 1) hin.symm)
  fits := by
    show s'.inPtr + 1 ≤ data.length
    rw [hin]
    exact hlt
  image := himage
  scanned := hscanned

/-- **A turn** keeps the invariant. -/
theorem dispatch_spec {word : UInt16} (hdata : data.length ≤ 2048) (h : Inv data f s)
    (hlt : s.inPtr < data.length) (hword : data[s.inPtr]? = some word) :
    Returns (dispatch s word) fun s' => s'.inPtr = s.inPtr ∧ ∃ f', Inv data f' s'.next := by
  have hpending := h.pending
  have hscanned := h.scanned
  rw [Scanned] at hscanned
  unfold dispatch
  cases hmode : s.mode with
  | inNot =>
    rw [hmode] at hscanned
    have hstart : s.inPtr = 0 := hscanned
    have hf : f = 0 := by omega
    have hcopy : s.g.copyCnt = 0 := UInt16.toNat_inj.mp (by omega : s.g.copyCnt.toNat = 0)
    refine Returns.pure ⟨rfl, f, h.advance hdata hlt rfl rfl (h.flushed.with_counts _ _ _) h.short
      ?_ (fun _ => hstart.trans hf.symm) ⟨rfl, hcopy, hword⟩⟩
    show f + 1 + s.g.copyCnt.toNat = s.inPtr + 1
    omega
  | inFirst =>
    rw [hmode] at hscanned
    obtain ⟨hone, hcopy, hlast⟩ := hscanned
    rw [hcopy, hone] at hpending
    have hpending : f + 1 + 0 = s.inPtr := hpending
    refine Returns.ite (fun hsame => ?_) fun _ => ?_
    · refine Returns.pure ⟨rfl, f, h.advance hdata hlt rfl rfl (h.flushed.with_counts _ _ _)
        h.short ?_ (absurd rfl) ⟨Nat.le_refl 2, hsame, ?_⟩⟩
      · show f + 0 + 2 = s.inPtr + 1
        omega
      · exact take_pair (p := s.inPtr) (by omega) (hsame ▸ hlast) hword
    · have hsucc := toNat_succ (x := s.g.imageCnt) (by omega)
      refine Returns.pure ⟨rfl, f, h.advance hdata hlt rfl rfl (h.flushed.with_counts _ _ _)
        h.short ?_ (fun _ => h.image (ne_zero_of_toNat (Nat.le_of_eq hone.symm)))
        ⟨?_, hcopy, hword⟩⟩
      · show f + (s.g.imageCnt + 1).toNat + s.g.copyCnt.toNat = s.inPtr + 1
        rw [hsucc, hcopy, hone]
        omega
      · show 1 ≤ (s.g.imageCnt + 1).toNat
        omega
  | inCopy =>
    rw [hmode] at hscanned
    obtain ⟨htwo, hitem, hrun⟩ := hscanned
    refine Returns.ite (fun hsame => ?_) fun _ => ?_
    · have hsucc := toNat_succ (x := s.g.copyCnt) (by omega)
      refine Returns.pure ⟨rfl, f, h.advance hdata hlt rfl rfl (h.flushed.with_counts _ _ _)
        h.short ?_ h.image ⟨?_, hitem, ?_⟩⟩
      · show f + s.g.imageCnt.toNat + (s.g.copyCnt + 1).toNat = s.inPtr + 1
        omega
      · show 2 ≤ (s.g.copyCnt + 1).toNat
        omega
      · show (data.drop (s.inPtr + 1 - (s.g.copyCnt + 1).toNat)).take (s.g.copyCnt + 1).toNat
          = List.replicate (s.g.copyCnt + 1).toNat s.copyItem
        rw [hsucc]
        exact take_run (by omega) hrun (by rw [hword, ← hsame, hitem])
    · refine Returns.ite (fun _ => ?_) fun hlong => ?_
      · -- the short run is where the literal ends
        have hsum : (s.g.imageCnt + (1 + s.g.copyCnt)).toNat
            = s.g.imageCnt.toNat + s.g.copyCnt.toNat + 1 := by
          rw [UInt16.toNat_add, UInt16.toNat_add]
          show (_ + (1 + _) % _) % _ = _
          omega
        refine Returns.pure ⟨rfl, f, h.advance hdata hlt rfl rfl (h.flushed.with_counts _ _ _)
          h.short ?_ (fun _ => ?_) ⟨?_, rfl, hword⟩⟩
        · show f + (s.g.imageCnt + (1 + s.g.copyCnt)).toNat + 0 = s.inPtr + 1
          omega
        · show (if s.g.imageCnt = 0 then s.inPtr - s.g.copyCnt.toNat else s.g.imagePtr) = f
          by_cases hzero : s.g.imageCnt = 0
          · rw [if_pos hzero]
            rw [hzero] at hpending
            have hpending : f + 0 + s.g.copyCnt.toNat = s.inPtr := hpending
            omega
          · rw [if_neg hzero]
            exact h.image hzero
        · show 1 ≤ (s.g.imageCnt + (1 + s.g.copyCnt)).toNat
          omega
      · -- a long run pays for its command and for that of the literal before it
        have hsix : 5 < s.g.copyCnt.toNat := by
          rw [h.flushed.run] at hlong
          exact UInt16.lt_iff_toNat_lt.mp (UInt16.not_le.mp hlong)
        refine flushBoth_spec (k := fun g => some { s with
            mode := .inImage
            last := word
            g := { g with imagePtr := s.inPtr, imageCnt := 1 } })
          hdata h hmode fun g hg _ hcopy hlen => ?_
        refine Returns.pure ⟨rfl, s.inPtr, h.advance hdata hlt rfl rfl (hg.with_counts _ _ _) ?_ ?_
          (fun _ => rfl) ⟨Nat.le_refl 1, hcopy, hword⟩⟩
        · show g.out.length ≤ s.inPtr
          omega
        · show s.inPtr + 1 + g.copyCnt.toNat = s.inPtr + 1
          rw [hcopy]
          rfl
  | inImage =>
    rw [hmode] at hscanned
    obtain ⟨hone, hcopy, hlast⟩ := hscanned
    rw [hcopy] at hpending
    have hpending : f + s.g.imageCnt.toNat + 0 = s.inPtr := hpending
    refine Returns.ite (fun hsame => ?_) fun _ => ?_
    · have hpred : (s.g.imageCnt - 1).toNat = s.g.imageCnt.toNat - 1 :=
        UInt16.toNat_sub_of_le _ _ (UInt16.le_iff_toNat_le.mpr hone)
      refine Returns.pure ⟨rfl, f, h.advance hdata hlt rfl rfl (h.flushed.with_counts _ _ _)
        h.short ?_ (fun _ => h.image (ne_zero_of_toNat hone)) ⟨Nat.le_refl 2, hsame, ?_⟩⟩
      · show f + (s.g.imageCnt - 1).toNat + 2 = s.inPtr + 1
        omega
      · exact take_pair (p := s.inPtr) (by omega) (hsame ▸ hlast) hword
    · have hsucc := toNat_succ (x := s.g.imageCnt) (by omega)
      refine Returns.pure ⟨rfl, f, h.advance hdata hlt rfl rfl (h.flushed.with_counts _ _ _)
        h.short ?_ (fun _ => h.image (ne_zero_of_toNat hone)) ⟨?_, hcopy, hword⟩⟩
      · show f + (s.g.imageCnt + 1).toNat + s.g.copyCnt.toNat = s.inPtr + 1
        rw [hsucc, hcopy]
        show f + (_ + 1) + 0 = _
        omega
      · show 1 ≤ (s.g.imageCnt + 1).toNat
        omega

structure Done (data : List UInt16) (g : State) : Prop where
  takes : Takes decodeStep [] g.out data
  cnt : g.outCnt.toNat = 2 * g.out.length
  short : g.out.length ≤ data.length + 1

theorem Flushed.done (h : Flushed data data.length g) (hshort : g.out.length ≤ data.length + 1) :
    Done data g := by
  have htakes := h.takes
  rw [List.take_length] at htakes
  exact ⟨htakes, h.cnt, hshort⟩

theorem finish_spec (hpos : 1 ≤ data.length) (hdata : data.length ≤ 2048) (h : Inv data f s)
    (hend : s.inPtr = data.length) : Returns (finish s) (Done data) := by
  have hpending := h.pending
  have hscanned := h.scanned
  rw [Scanned] at hscanned
  -- a literal alone, with no run behind it
  have hliteral (hcopy : s.g.copyCnt = 0) : Returns (do
      let (g, _) ← flushImage s.g
      some g) (Done data) := by
    rw [hcopy] at hpending
    have hpending : f + s.g.imageCnt.toNat + 0 = s.inPtr := hpending
    refine Returns.bind (flushImage_spec h.flushed hdata h.image (by omega) h.short) ?_
    rintro ⟨g, _⟩ ⟨hg, -, -, hlen⟩
    rw [show f + s.g.imageCnt.toNat = data.length by omega] at hg hlen
    exact Returns.pure (hg.done hlen)
  unfold finish
  cases hmode : s.mode with
  | inNot =>
    rw [hmode] at hscanned
    have hstart : s.inPtr = 0 := hscanned
    omega
  | inFirst =>
    rw [hmode] at hscanned
    exact hliteral hscanned.2.1
  | inImage =>
    rw [hmode] at hscanned
    exact hliteral hscanned.2.1
  | inCopy =>
    rw [hmode] at hscanned
    have htwo : 2 ≤ s.g.copyCnt.toNat := hscanned.1
    refine flushBoth_spec (k := some) hdata h hmode fun g hg _ _ hlen => ?_
    rw [hend] at hg hlen
    exact Returns.pure (hg.done (by omega))

/-- **Round trip.** The commands give the record back, they are one word more than it at most,
and stay inside of `m_out_array`; the size is theirs. -/
theorem compressData_round_trip (g : State) (data : List UInt16) (hpos : 1 ≤ data.length)
    (hdata : data.length ≤ 2048) :
    Returns (compressData (init g data (UInt16.ofNat (2 * data.length)))) fun g' =>
      decodeWords g'.out = some data ∧
        (getFrameInfo g').toNat = 2 * g'.out.length ∧
        2 * g'.out.length ≤ 2 * data.length + 2 ∧
        8 + g'.out.length ≤ outWords := by
  have hsize : (UInt16.ofNat (2 * data.length)).toNat = 2 * data.length := by
    rw [UInt16.toNat_ofNat']
    omega
  have hloop : Returns (loop turn (data.length + 1)
      ⟨{ init g data (UInt16.ofNat (2 * data.length)) with
        out := [], outCnt := 0, imageCnt := 0, copyCnt := 0 }, 0, 0, 0, 0, .inNot⟩)
      fun s => ∃ f, Inv data f s ∧ s.inPtr = data.length := by
    refine Returns.loop (fun s => ∃ f, Inv data f s) (fun s => data.length - s.inPtr) ?_ _ _
      ⟨0, ⟨rfl, hsize, rfl, .nil _, rfl⟩, Nat.le_refl 0, rfl, rfl, Nat.zero_le _,
        absurd rfl, rfl⟩ (Nat.lt_succ_of_le (Nat.sub_le _ _))
    rintro s ⟨f, h⟩
    have hcounter := h.counter
    have hfits := h.fits
    have hlength := h.flushed.length
    refine Returns.ite (fun hlt => ?_) fun hge => ?_
    · have hin : s.inPtr < data.length := by omega
      have hword : data[s.inPtr]? = some data[s.inPtr] := List.getElem?_eq_getElem hin
      refine Returns.bind (P := (· = data[s.inPtr])) ⟨_, by rw [h.flushed.raw, hword], rfl⟩ ?_
      rintro _ rfl
      refine Returns.bind (dispatch_spec hdata h hin hword) ?_
      rintro s' ⟨hkeep, f', h'⟩
      refine Returns.pure ⟨⟨f', h'⟩, ?_⟩
      show data.length - (s'.inPtr + 1) < data.length - s.inPtr
      omega
    · exact Returns.pure ⟨f, h, by omega⟩
  refine Returns.bind hloop ?_
  rintro s ⟨f, h, hend⟩
  refine (finish_spec hpos hdata h hend).mono fun g' hdone => ?_
  have hshort := hdone.short
  refine ⟨hdone.takes.decode_eq (Nat.le_refl _), hdone.cnt, by omega, ?_⟩
  unfold outWords
  omega

/-- A short run at the start, and a long one at the end. -/
theorem compressData_two_runs :
    Returns (compressData (init ⟨[], 0, 0, 0, 0, [], 0, 0⟩ [8, 8, 9, 4, 4, 4, 4, 4, 4] 18)) fun g' =>
      decodeWords g'.out = some [8, 8, 9, 4, 4, 4, 4, 4, 4] ∧
        (getFrameInfo g').toNat = 2 * g'.out.length ∧ 2 * g'.out.length ≤ 20 ∧
        8 + g'.out.length ≤ outWords :=
  compressData_round_trip _ [8, 8, 9, 4, 4, 4, 4, 4, 4] (by decide) (by decide)

example : (compressData (init ⟨[], 0, 0, 0, 0, [], 0, 0⟩ [8, 8, 9, 4, 4, 4, 4, 4, 4] 18)).map
    State.out = some [0x4002, 8, 8, 9, 0x3005, 4] := by decide

end Hplip.Hpcups.LidilCompress
