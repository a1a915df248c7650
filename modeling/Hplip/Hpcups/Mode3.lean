import Hplip.Hpcups.Compressor
import Hplip.Lib.CommandStream
import Hplip.Lib.Loop
import Hplip.Lib.Vli

/-!
# Mode 3: PCL delta row compression (Mode3.cpp)

A row is written as commands that each skip bytes equal to the seed row (the
previous row) and replace the next one to eight bytes. The command byte holds
the count minus one in its upper three bits and the offset in its lower five;
an offset of 31 is continued by a chain of bytes.
-/

namespace Hplip.Hpcups.Mode3

open Loop CommandStream

/-! ## The compressor -/

/-- `Mode3::Mode3`: `heap` is what the fresh seed row held. -/
def new (rasterSize : Nat) (heap : Mem) : Compressor where
  compressBuf := []
  seedRow := memset heap 0 rasterSize
  compressedsize := 0
  inputsize := rasterSize
  seeded := false
  iRastersReady := 0
  myplane := .color

/-- `Mode3::Flush`. -/
def flush (c : Compressor) : Compressor :=
  if ¬ c.seeded then c
  else { c with
    compressedsize := 0
    iRastersReady := 0
    seeded := false
    seedRow := memset c.seedRow 0 c.inputsize }

structure Scan where
  pszSptr : Nat
  pszInPtr : Nat
  count : Nat

def Scan.next (s : Scan) : Scan :=
  ⟨s.pszSptr + 1, s.pszInPtr + 1, s.count + 1⟩

/-- `while ((*pszSptr == *pszInPtr) && (uOffset < size))`. -/
def scanSeed (seed input : Mem) (size : Nat) : Scan → Option Scan :=
  whileDo (fun s => seed s.pszSptr = input s.pszInPtr ∧ s.count < size) Scan.next (size + 1)

/-- `while ((*pszSptr != *pszInPtr) && ucByteCount < size && ucByteCount < 8)`. -/
def scanLiteral (seed input : Mem) (size : Nat) : Scan → Option Scan :=
  whileDo (fun s => seed s.pszSptr ≠ input s.pszInPtr ∧ s.count < size ∧ s.count < 8)
    Scan.next 9

/-- `while (uOffset >= 255)`, with the byte that follows it. -/
def putOffset (uOffset : Nat) : Option (List UInt8) := do
  let s ← whileDo (fun s : Nat × List UInt8 => s.1 ≥ 255)
    (fun s => (s.1 - 255, s.2 ++ [255])) (uOffset + 1) (uOffset, [])
  some (s.2 ++ [UInt8.ofNat s.1])

def putCommand (ucByteCount uOffset : Nat) : Option (List UInt8) :=
  if uOffset < 31 then some [UInt8.ofNat ((ucByteCount <<< 5) ||| uOffset)]
  else do
    let bytes ← putOffset (uOffset - 31)
    some (UInt8.ofNat ((ucByteCount <<< 5) ||| 31) :: bytes)

structure Locals where
  size : Nat
  pszSptr : Nat
  pszInPtr : Nat
  out : List UInt8

/-- One iteration of `while (size > 0)`; `.inr` leaves it with the output. -/
def iter (seed input : Mem) (seeded : Bool) (s : Locals) :
    Option (Locals ⊕ List UInt8) :=
  if s.size > 0 then do
    let start : Scan := ⟨s.pszSptr, s.pszInPtr, 0⟩
    let scan ← if seeded then scanSeed seed input s.size start else some start
    if scan.count ≥ s.size then some (.inr s.out)
    else do
      let size := s.size - scan.count
      let lit ← scanLiteral seed input size ⟨scan.pszSptr + 1, scan.pszInPtr + 1, 1⟩
      let ucByteCount := lit.count - 1
      let command ← putCommand ucByteCount scan.count
      let ucByteCount := ucByteCount + 1
      some (.inl
        { size := size - ucByteCount
          pszSptr := lit.pszSptr
          pszInPtr := lit.pszInPtr
          out := s.out ++ command ++ slice input scan.pszInPtr ucByteCount })
  else some (.inr s.out)

def compress (seed input : Mem) (seeded : Bool) (size : Nat) : Option (List UInt8) :=
  loop (iter seed input seeded) (size + 1) ⟨size, 0, 0, []⟩

/-- `Mode3::Process`; the flag is its result. -/
def process (c : Compressor) (input : Option RasterData) : Option (Compressor × Bool) :=
  match input with
  | none => some (flush c, false)
  | some raster =>
    match raster.rasterdata c.myplane with
    | none => some (flush c, false)
    | some data => do
      let c := { c with seeded := true }
      let out ← compress c.seedRow data c.seeded (raster.rastersize c.myplane)
      some ({ c with
        compressBuf := out
        compressedsize := out.length
        seedRow := blit c.seedRow 0 data (raster.rastersize c.myplane)
        seeded := true
        iRastersReady := 1 }, true)

/-! ## The printer's side -/

/-- One delta-row command against the seed row; the state is the part of the
row that is already known. -/
def decodeStep (seed : List UInt8) : Step (List UInt8) UInt8
  | _, [] => none
  | done, b :: bs => do
    let count := b.toNat / 32 + 1
    let (offset, bs) ← readVliRest 31 (b.toNat % 32) bs
    if done.length + offset + count ≤ seed.length ∧ count ≤ bs.length then
      some (done ++ (seed.drop done.length).take offset ++ bs.take count, bs.drop count)
    else none

def decodeRow (seed bytes : List UInt8) : Option (List UInt8) :=
  (decode (decodeStep seed) bytes.length [] bytes).map fun done =>
    done ++ seed.drop done.length

/-! ## Commands -/

theorem putOffset_eq (n : Nat) : putOffset n = some (vli n) := by
  have hloop : Returns (whileDo (fun s : Nat × List UInt8 => s.1 ≥ 255)
      (fun s => (s.1 - 255, s.2 ++ [255])) (n + 1) (n, []))
      fun s => s.2 ++ vli s.1 = vli n ∧ ¬ s.1 ≥ 255 := by
    refine Returns.whileDo (fun s : Nat × List UInt8 => s.2 ++ vli s.1 = vli n)
      (fun s => s.1) ?_ _ _ rfl (Nat.lt_succ_self n)
    rintro ⟨m, out⟩ hI hc
    obtain ⟨m, rfl⟩ := Nat.exists_eq_add_of_le' hc
    refine ⟨?_, by show m + 255 - 255 < m + 255; lia⟩
    show (out ++ [255]) ++ vli (m + 255 - 255) = vli n
    rw [Nat.add_sub_cancel, List.append_assoc, List.singleton_append, ← vli_add_255]
    exact hI
  obtain ⟨s, hs, hI, hc⟩ := hloop
  rw [putOffset, hs]
  show some (s.2 ++ [UInt8.ofNat s.1]) = some (vli n)
  rw [← hI, vli_of_lt (by lia)]

/-- The command byte and the offset bytes of `offset`, as one list. -/
def commandBytes (count offset : Nat) : List UInt8 :=
  UInt8.ofNat (((count - 1) <<< 5) ||| min offset 31) :: vliRest 31 offset

theorem putCommand_eq (count offset : Nat) :
    putCommand (count - 1) offset = some (commandBytes count offset) := by
  unfold putCommand commandBytes
  by_cases h : offset < 31
  · rw [if_pos h, vliRest_of_lt h, Nat.min_eq_left (Nat.le_of_lt h)]
  · have hle : 31 ≤ offset := Nat.not_lt.mp h
    rw [if_neg h, vliRest_of_le hle, Nat.min_eq_right hle, putOffset_eq]
    rfl

theorem commandBytes_ne_nil (count offset : Nat) : commandBytes count offset ≠ [] :=
  List.cons_ne_nil _ _

theorem commandBytes_length (count offset : Nat) :
    (commandBytes count offset).length ≤ max 1 offset := by
  have hrest := vliRest_length_le 31 offset
  unfold commandBytes
  rw [List.length_cons]
  lia

theorem commandByte_fields {c o : Nat} (hc : c < 8) (ho : o < 32) :
    (UInt8.ofNat ((c <<< 5) ||| o)).toNat / 32 = c ∧
      (UInt8.ofNat ((c <<< 5) ||| o)).toNat % 32 = o := by
  have hor : (c <<< 5) ||| o = c * 32 + o := by
    rw [← Nat.shiftLeft_add_eq_or_of_lt (i := 5) ho c, Nat.shiftLeft_eq]
  rw [hor, UInt8.toNat_ofNat']
  lia

theorem decodeStep_command {seed done data rest : List UInt8} {count offset : Nat}
    (hcount : 1 ≤ count ∧ count ≤ 8) (hdata : data.length = count)
    (hfit : done.length + offset + count ≤ seed.length) :
    decodeStep seed done (commandBytes count offset ++ data ++ rest)
      = some (done ++ (seed.drop done.length).take offset ++ data, rest) := by
  have htake : (data ++ rest).take count = data := List.take_left' hdata
  have hdrop : (data ++ rest).drop count = rest := List.drop_left' hdata
  have hlen : count ≤ (data ++ rest).length := by
    rw [List.length_append]
    lia
  obtain ⟨hdiv, hmod⟩ := commandByte_fields (c := count - 1) (o := min offset 31)
    (by lia) (by lia)
  unfold commandBytes
  rw [List.cons_append, List.cons_append, List.append_assoc, decodeStep, hdiv, hmod,
    readVliRest_vliRest]
  simp only [Option.bind_eq_bind, Option.bind_some]
  rw [Nat.sub_add_cancel hcount.1, if_pos ⟨hfit, hlen⟩, htake, hdrop]

/-! ## The scans -/

/-- A scan that started at `p` and has counted to `n`. -/
def Scan.at (p n : Nat) : Scan := ⟨p + n, p + n, n⟩

@[simp] theorem Scan.next_at (p n : Nat) : (Scan.at p n).next = Scan.at p (n + 1) := rfl

theorem scanSeed_spec (seed input : Mem) (size p : Nat) :
    Returns (scanSeed seed input size (.at p 0)) fun r => ∃ n, r = .at p n ∧ n ≤ size ∧
      (∀ j < n, seed (p + j) = input (p + j)) ∧
      (n < size → seed (p + n) ≠ input (p + n)) := by
  refine (Returns.whileDo
    (fun s : Scan => ∃ n, s = .at p n ∧ n ≤ size ∧ ∀ j < n, seed (p + j) = input (p + j))
    (fun s : Scan => size - s.count) ?_ (size + 1) (.at p 0) ⟨0, rfl, Nat.zero_le _, by simp⟩
    (Nat.lt_succ_of_le (Nat.sub_le _ _))).mono ?_
  · rintro _ ⟨n, rfl, -, heq⟩ ⟨hcur, hlt⟩
    refine ⟨⟨n + 1, rfl, hlt, fun j hj => ?_⟩, Nat.sub_succ_lt_self _ _ hlt⟩
    rcases Nat.lt_succ_iff_lt_or_eq.mp hj with hj | rfl
    · exact heq j hj
    · exact hcur
  · rintro _ ⟨⟨n, rfl, hle, heq⟩, hc⟩
    exact ⟨n, rfl, hle, heq, fun hlt he => hc ⟨he, hlt⟩⟩

theorem scanLiteral_spec (seed input : Mem) {size : Nat} (hsize : 0 < size) (p : Nat) :
    Returns (scanLiteral seed input size (.at p 1)) fun r => ∃ n, r = .at p n ∧
      1 ≤ n ∧ n ≤ size ∧ n ≤ 8 ∧
      (n < size → n < 8 → seed (p + n) = input (p + n)) := by
  refine (Returns.whileDo
    (fun s : Scan => ∃ n, s = .at p n ∧ 1 ≤ n ∧ n ≤ size ∧ n ≤ 8)
    (fun s : Scan => 8 - s.count) ?_ 9 (.at p 1) ⟨1, rfl, Nat.le_refl 1, hsize, by decide⟩
    (Nat.lt_succ_of_le (Nat.sub_le 8 1))).mono ?_
  · rintro _ ⟨n, rfl, hpos, -, -⟩ ⟨-, hlt, hlt8⟩
    exact ⟨⟨n + 1, rfl, Nat.succ_le_succ (Nat.zero_le n), hlt, hlt8⟩,
      Nat.sub_succ_lt_self _ _ hlt8⟩
  · rintro _ ⟨⟨n, rfl, hpos, hle, h8⟩, hc⟩
    refine ⟨n, rfl, hpos, hle, h8, fun hlt hlt8 => ?_⟩
    by_contra hne
    exact hc ⟨hne, hlt, hlt8⟩

/-! ## The main loop -/

variable (seed input : Mem) (n : Nat)

/-- What the main loop keeps over a row of `n` bytes when it stands at `p`: the
commands take the printer there, and they exceed `p` by at most one byte per
eight and one more. The last byte is only spent once the scan has stopped at
equal bytes, because a command without an offset follows the start of the row
or a full literal. -/
structure Inv (p : Nat) (out : List UInt8) : Prop where
  le : p ≤ n
  takes : Takes (decodeStep (slice seed 0 n)) [] out (slice input 0 p)
  excess : out.length ≤ p + p / 8 + 1
  tight : p < n → seed p ≠ input p → out.length ≤ p + p / 8

/-- The locals when both pointers stand at `p`. -/
def Locals.at (p : Nat) (out : List UInt8) : Locals := ⟨n - p, p, p, out⟩

/-- What the main loop leaves: commands up to a position from which the row is
its seed row. -/
def Done (out : List UInt8) : Prop :=
  ∃ p ≤ n, Takes (decodeStep (slice seed 0 n)) [] out (slice input 0 p) ∧
    slice seed p (n - p) = slice input p (n - p) ∧ out.length ≤ n + n / 8 + 1

theorem inv_init : Inv seed input n 0 [] where
  le := Nat.zero_le n
  takes := .nil _
  excess := Nat.zero_le _
  tight _ _ := Nat.zero_le _

variable {seed input n}

theorem Inv.command {p : Nat} {out : List UInt8} (h : Inv seed input n p out)
    {off cnt : Nat} (hfit : p + off + cnt ≤ n) (hcnt : 1 ≤ cnt ∧ cnt ≤ 8)
    (heq : ∀ j < off, seed (p + j) = input (p + j))
    (hne : seed (p + off) ≠ input (p + off))
    (hstop : p + off + cnt < n → cnt < 8 →
      seed (p + off + cnt) = input (p + off + cnt)) :
    Inv seed input n (p + off + cnt)
      (out ++ commandBytes cnt off ++ slice input (p + off) cnt) := by
  have hlen := commandBytes_length cnt off
  have hexcess := h.excess
  -- a command without an offset is only written where the excess is tight
  have htight : off = 0 → out.length ≤ p + p / 8 := by
    rintro rfl
    exact h.tight (by lia) hne
  refine ⟨hfit, ?_, ?_, fun hlt hne' => ?_⟩
  · have hrow : slice input 0 (p + off + cnt)
        = slice input 0 p ++ slice seed p off ++ slice input (p + off) cnt := by
      rw [slice_add, slice_add, Nat.zero_add, Nat.zero_add, slice_congr heq]
    rw [List.append_assoc, hrow]
    refine h.takes.snoc (by simp [commandBytes_ne_nil]) fun rest => ?_
    rw [decodeStep_command hcnt (slice_length ..) (by simp; lia), slice_length,
      take_drop_slice seed (by lia), Nat.zero_add]
  · simp only [List.length_append, slice_length]
    lia
  · have h8 : cnt = 8 := by
      by_contra h8
      exact hne' (hstop hlt (by lia))
    simp only [List.length_append, slice_length]
    lia

theorem iter_spec {p : Nat} {out : List UInt8} (h : Inv seed input n p out) :
    Returns (iter seed input true (.at n p out)) fun r => Sum.elim
      (fun s' => ∃ p' out', s' = .at n p' out' ∧ p < p' ∧ Inv seed input n p' out')
      (Done seed input n) r := by
  have hle := h.le
  have hexcess := h.excess
  rw [iter]
  dsimp only [Locals.at]
  refine Returns.ite (fun hsize => ?_) (fun hsize => ?_)
  swap
  · -- the row is used up
    refine Returns.pure ⟨p, hle, h.takes, ?_, by lia⟩
    rw [Nat.eq_zero_of_not_pos hsize]
    rfl
  refine Returns.bind (scanSeed_spec seed input (n - p) p) ?_
  rintro _ ⟨off, rfl, hoff, heq, hne⟩
  dsimp only [Scan.at]
  refine Returns.ite (fun hbreak => ?_) (fun hbreak => ?_)
  · -- the rest of the row equals the seed row
    refine Returns.pure ⟨p, hle, h.takes, ?_, by lia⟩
    rw [show n - p = off by lia]
    exact slice_congr heq
  refine Returns.bind (scanLiteral_spec seed input (by lia) (p + off)) ?_
  rintro _ ⟨cnt, rfl, hcnt, hcntle, hcnt8, hstop⟩
  simp only [Scan.at, putCommand_eq, Nat.sub_add_cancel hcnt]
  refine Returns.pure ⟨p + off + cnt, _, ?_, by lia, h.command (by lia) ⟨hcnt, hcnt8⟩ heq
    (hne (not_le.mp hbreak)) fun hlt => hstop (by lia)⟩
  rw [show n - (p + off + cnt) = n - p - off - cnt by lia]

theorem compress_spec (seed input : Mem) (n : Nat) :
    Returns (compress seed input true n) (Done seed input n) := by
  refine Returns.loop
    (fun s : Locals => ∃ p out, s = .at n p out ∧ Inv seed input n p out)
    (fun s : Locals => s.size) ?_ (n + 1) (.at n 0 []) ⟨0, [], rfl, inv_init seed input n⟩
    (Nat.lt_succ_of_le (Nat.sub_le n 0))
  rintro _ ⟨p, out, rfl, h⟩
  refine (iter_spec h).mono ?_
  rintro (s' | out') hr
  · obtain ⟨p', out', rfl, hlt, h'⟩ := hr
    have hle := h'.le
    exact ⟨⟨p', out', rfl, h'⟩, by show n - p' < n - p; lia⟩
  · exact hr

theorem Done.decodeRow {out : List UInt8} (h : Done seed input n out) :
    decodeRow (slice seed 0 n) out = some (slice input 0 n) := by
  obtain ⟨p, hp, htakes, heq, -⟩ := h
  rw [Mode3.decodeRow, htakes.decode_eq (Nat.le_refl _), Option.map_some, slice_length,
    drop_slice seed hp, Nat.zero_add, heq, slice_append_slice input hp]

/-! ## What the output depends on

Both scans compare before they check the bound, so they read one byte past the
row and one past the seed row; the bound then decides. -/

variable {seed' input' : Mem}

theorem scanSeed_congr {size p : Nat}
    (heq : ∀ j < size, (seed (p + j) = input (p + j) ↔ seed' (p + j) = input' (p + j))) :
    scanSeed seed input size (.at p 0) = scanSeed seed' input' size (.at p 0) := by
  refine whileDo_congr (fun s : Scan => ∃ n, s = .at p n) ?_ ?_ _ _ ⟨0, rfl⟩
  · rintro _ ⟨n, rfl⟩
    exact and_congr_left fun hlt => heq n hlt
  · rintro _ ⟨n, rfl⟩ -
    exact ⟨n + 1, rfl⟩

theorem scanLiteral_congr {size p : Nat}
    (heq : ∀ j < size, (seed (p + j) = input (p + j) ↔ seed' (p + j) = input' (p + j))) :
    scanLiteral seed input size (.at p 1) = scanLiteral seed' input' size (.at p 1) := by
  refine whileDo_congr (fun s : Scan => ∃ n, s = .at p n) ?_ ?_ _ _ ⟨1, rfl⟩
  · rintro _ ⟨n, rfl⟩
    exact and_congr_left fun hlt => not_congr (heq n hlt.1)
  · rintro _ ⟨n, rfl⟩ -
    exact ⟨n + 1, rfl⟩

theorem iter_congr (hs : ∀ i < n, seed i = seed' i) (hi : ∀ i < n, input i = input' i)
    {p : Nat} {out : List UInt8} (hp : p ≤ n) :
    iter seed input true (.at n p out) = iter seed' input' true (.at n p out) := by
  have hcmp : ∀ q size, q + size ≤ n → ∀ j < size,
      (seed (q + j) = input (q + j) ↔ seed' (q + j) = input' (q + j)) := by
    intro q size hq j hj
    rw [hs _ (by lia), hi _ (by lia)]
  unfold iter
  dsimp only [Locals.at]
  refine if_congr Iff.rfl ?_ rfl
  show (scanSeed seed input (n - p) (.at p 0)).bind _
    = (scanSeed seed' input' (n - p) (.at p 0)).bind _
  rw [← scanSeed_congr (hcmp p (n - p) (by lia))]
  refine Option.bind_congr fun scan hscan => ?_
  obtain ⟨off, rfl, hoff, -, -⟩ := (scanSeed_spec seed input (n - p) p).of_eq_some hscan
  dsimp only [Scan.at]
  refine ite_congr rfl (fun _ => rfl) (fun hbreak => ?_)
  show (scanLiteral seed input (n - p - off) (.at (p + off) 1)).bind _
    = (scanLiteral seed' input' (n - p - off) (.at (p + off) 1)).bind _
  rw [← scanLiteral_congr (hcmp (p + off) (n - p - off) (by lia))]
  refine Option.bind_congr fun lit hlit => ?_
  obtain ⟨cnt, rfl, hcnt, hle, -, -⟩ :=
    (scanLiteral_spec seed input (by lia) (p + off)).of_eq_some hlit
  have hdata : slice input (p + off) cnt = slice input' (p + off) cnt :=
    slice_congr fun j hj => hi _ (by lia)
  simp only [Scan.at, Nat.sub_add_cancel hcnt, hdata]

theorem compress_congr (hs : ∀ i < n, seed i = seed' i) (hi : ∀ i < n, input i = input' i) :
    compress seed input true n = compress seed' input' true n := by
  refine loop_congr (fun s : Locals => ∃ p out, s = .at n p out ∧ Inv seed input n p out)
    ?_ (n + 1) (.at n 0 []) ⟨0, [], rfl, inv_init seed input n⟩
  rintro _ ⟨p, out, rfl, h⟩
  refine ⟨iter_congr hs hi h.le, fun s' hs' => ?_⟩
  obtain ⟨p', out', hs', -, h'⟩ := (iter_spec h).of_eq_some hs'
  exact ⟨p', out', hs', h'⟩

/-! ## A page of rows and flushes -/

inductive Event
  | row (data : Mem)
  | flush

/-- What goes to the printer: a row, or the command that restarts the raster. -/
inductive Message
  | row (bytes : List UInt8)
  | flush

/-- `Mode3::NextOutputRaster`: the colour half of the raster it delivers. -/
def nextOutputRaster (c : Compressor) : Option (Compressor × List UInt8) :=
  if c.iRastersReady = 0 then none
  else if c.myplane = .color ∧ c.compressedsize ≠ 0 then
    some ({ c with iRastersReady := 0 }, c.compressBuf.take c.compressedsize)
  else some ({ c with iRastersReady := 0 }, [])

/-- `Pipeline::Execute` on one event, with rasters of `size` bytes. -/
def execute (size : Nat) (c : Compressor) : Event → Option (Compressor × List Message)
  | .flush => some (flush c, [.flush])
  | .row data => do
    let (c, ready) ← process c (some (.only .color data size))
    if ready then
      match nextOutputRaster c with
      | some (c, bytes) => some (c, [.row bytes])
      | none => some (c, [])
    else some (c, [])

def run (size : Nat) : Compressor → List Event → Option (List Message)
  | _, [] => some []
  | c, ev :: evs => do
    let (c, msgs) ← execute size c ev
    let rest ← run size c evs
    some (msgs ++ rest)

/-- The printer decodes each row against the one before it, and against zeros
after a restart. -/
def receive (size : Nat) : List UInt8 → List Message → Option (List (List UInt8))
  | _, [] => some []
  | _, .flush :: msgs => receive size (List.replicate size 0) msgs
  | seed, .row bytes :: msgs => do
    let row ← decodeRow seed bytes
    let rows ← receive size row msgs
    some (row :: rows)

def Event.bytes (size : Nat) : Event → Option (List UInt8)
  | .row data => some (slice data 0 size)
  | .flush => none

/-- The compressor's seed row is the printer's, and it is cleared when `seeded`
says that a flush has nothing to do. -/
structure Tracks (n : Nat) (c : Compressor) (seed : List UInt8) : Prop where
  inputsize : c.inputsize = n
  myplane : c.myplane = .color
  seedRow : slice c.seedRow 0 n = seed
  unseeded : c.seeded = false → seed = List.replicate n 0

theorem tracks_new (n : Nat) (heap : Mem) :
    Tracks n (new n heap) (List.replicate n 0) where
  inputsize := rfl
  myplane := rfl
  seedRow := slice_memset heap 0 n
  unseeded _ := rfl

theorem Tracks.flush {c : Compressor} {seed : List UInt8} (h : Tracks n c seed) :
    Tracks n (flush c) (List.replicate n 0) := by
  unfold Mode3.flush
  by_cases hseeded : c.seeded = true
  · rw [if_neg (not_not_intro hseeded)]
    exact ⟨h.inputsize, h.myplane, by rw [← h.inputsize]; exact slice_memset _ _ _,
      fun _ => rfl⟩
  · rw [if_pos hseeded]
    have hzero := h.unseeded (Bool.eq_false_iff.mpr hseeded)
    exact ⟨h.inputsize, h.myplane, hzero ▸ h.seedRow, fun _ => rfl⟩

theorem Tracks.row {c : Compressor} {seed : List UInt8} (h : Tracks n c seed) {data : Mem}
    {out : List UInt8} (hout : compress c.seedRow data true n = some out) :
    ∃ c', execute n c (.row data) = some (c', [.row out]) ∧
      Tracks n c' (slice data 0 n) := by
  refine ⟨{ c with
    compressBuf := out
    compressedsize := out.length
    seedRow := blit c.seedRow 0 data n
    seeded := true
    iRastersReady := 0 }, ?_, h.inputsize, h.myplane, slice_blit_self .., by simp⟩
  simp only [execute, process, h.myplane, RasterData.only_data, RasterData.only_size, hout,
    nextOutputRaster]
  cases out <;> simp

theorem seedRow_eq {c c' : Compressor} {seed : List UInt8} (h : Tracks n c seed)
    (h' : Tracks n c' seed) : ∀ i < n, c.seedRow i = c'.seedRow i := by
  have heq := slice_eq_iff.mp (h.seedRow.trans h'.seedRow.symm)
  simpa only [Nat.zero_add] using heq

theorem run_spec (hn : 2 ≤ n) (evs : List Event) :
    ∀ {c : Compressor} {seed : List UInt8}, Tracks n c seed →
      Returns (run n c evs) fun msgs =>
        receive n seed msgs = some (evs.filterMap (Event.bytes n)) ∧
        (∀ bytes, Message.row bytes ∈ msgs → bytes.length ≤ n + n / 2) ∧
        ∀ c' evs', Tracks n c' seed → evs'.map (Event.bytes n) = evs.map (Event.bytes n) →
          run n c' evs' = some msgs := by
  induction evs with
  | nil =>
    intro c seed _
    refine Returns.pure ⟨rfl, by simp, fun c' evs' _ hevs => ?_⟩
    rw [List.map_eq_nil_iff.mp hevs]
    rfl
  | cons ev evs ih =>
    intro c seed h
    cases ev with
    | flush =>
      obtain ⟨msgs, hmsgs, hrecv, hlen, hsame⟩ := ih h.flush
      refine ⟨.flush :: msgs, by simp [run, execute, hmsgs], ?_, ?_, ?_⟩
      · rw [receive, hrecv]
        rfl
      · simpa using hlen
      · intro c' evs' h' hevs
        obtain ⟨ev', evs', rfl, hev, hrest⟩ := List.map_eq_cons_iff.mp hevs
        cases ev' with
        | row data => cases hev
        | flush => simp [run, execute, hsame _ _ h'.flush hrest]
    | row data =>
      obtain ⟨out, hout, hdone⟩ := compress_spec c.seedRow data n
      obtain ⟨c₁, hexec, h₁⟩ := h.row hout
      obtain ⟨msgs, hmsgs, hrecv, hlen, hsame⟩ := ih h₁
      refine ⟨.row out :: msgs, by simp [run, hexec, hmsgs], ?_, ?_, ?_⟩
      · have hdecode := hdone.decodeRow
        rw [h.seedRow] at hdecode
        simp [receive, hdecode, hrecv, Event.bytes]
      · obtain ⟨-, -, -, -, hout_le⟩ := hdone
        intro bytes hbytes
        rcases List.mem_cons.mp hbytes with hb | hb
        · cases hb
          lia
        · exact hlen bytes hb
      · intro c' evs' h' hevs
        obtain ⟨ev', evs', rfl, hev, hrest⟩ := List.map_eq_cons_iff.mp hevs
        cases ev' with
        | flush => cases hev
        | row data' =>
          have hdata : slice data' 0 n = slice data 0 n := Option.some.inj hev
          have heq : ∀ i < n, data' i = data i := by
            simpa only [Nat.zero_add] using slice_eq_iff.mp hdata
          have hout' : compress c'.seedRow data' true n = some out := by
            rw [compress_congr (seedRow_eq h' h) heq, hout]
          obtain ⟨c₁', hexec', h₁'⟩ := h'.row hout'
          rw [hdata] at h₁'
          simp [run, hexec', hsame _ _ h₁' hrest]

/-- **Round trip over a page.** For every sequence of rows and flushes the
printer gets the rows back, each within the output buffer, and neither the
heap behind the seed row nor the bytes behind a row have an influence. -/
theorem run_round_trip (w : Nat) (hw : 1 ≤ w) (heap : Mem) (evs : List Event) :
    Returns (run (3 * w) (new (3 * w) heap) evs) fun msgs =>
      receive (3 * w) (List.replicate (3 * w) 0) msgs
        = some (evs.filterMap (Event.bytes (3 * w))) ∧
      (∀ bytes, Message.row bytes ∈ msgs → bytes.length ≤ 3 * w + 3 * w / 2) ∧
      ∀ heap' evs', evs'.map (Event.bytes (3 * w)) = evs.map (Event.bytes (3 * w)) →
        run (3 * w) (new (3 * w) heap') evs' = some msgs := by
  refine (run_spec (by omega) evs (tracks_new _ heap)).mono ?_
  rintro msgs ⟨hrecv, hlen, hsame⟩
  exact ⟨hrecv, hlen, fun heap' evs' => hsame _ evs' (tracks_new _ heap')⟩

/-- One white pixel and a flush, with other bytes behind both buffers. -/
theorem run_round_trip_pixel : Returns
    (run 3 (new 3 fun _ => 7) [.row (memset (fun _ => 9) 255 3), .flush]) fun msgs =>
      receive 3 (List.replicate 3 0) msgs = some [[255, 255, 255]] := by
  refine (run_round_trip 1 (Nat.le_refl 1) _ _).mono ?_
  rintro msgs ⟨hrecv, -, -⟩
  exact hrecv

end Hplip.Hpcups.Mode3
