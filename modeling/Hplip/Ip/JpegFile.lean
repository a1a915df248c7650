import Mathlib
import Hplip.Ip.JpegEncode

/-!
# A file out of the JPEG encoder (xjpg_enc.c)

The client gives the rows one by one, and then calls without a row until it is told that the
job is done. It puts what a call wrote at the place in the file that the call named; a header
may be written there a second time, once the number of rows is known.
-/

namespace Hplip.Ip.JpegEnc

open Loop

/-! ## The client -/

structure Session where
  g : JencInst
  left : List Bytes
  file : List UInt8

abbrev Offer := UInt32 × Bytes

def place (file : List UInt8) (pos : Nat) (chunk : List UInt8) : List UInt8 :=
  file.take pos ++ List.replicate (pos - file.length) 0 ++ chunk
    ++ file.drop (pos + chunk.length)

/-- A call with the next row, or without one when there is none, into the next of the
client's buffers. -/
def call (codeBlock : Bool → List UInt8 → Nat → List Int → Coder → Coder × List UInt8)
    (s : Session × (Nat → Offer)) : (Session × (Nat → Offer)) ⊕ List UInt8 :=
  let (g, r) := convert codeBlock s.1.g s.1.left.head? (s.2 0).1 (s.2 0).2
  let file := place s.1.file r.outputThisPos.toNat r.output
  if r.done then .inr file
  else .inl ({ g, left := if r.consumed then s.1.left.tail else s.1.left, file },
    fun i => s.2 (i + 1))

/-! ## The file -/

/-- How many rows a call takes: samples in the order of the ASIC come for several. -/
def Config.rowsPerLine (c : Config) : Nat := if c.TakesPixels then 1 else c.maxVertSamFac

def Config.linesPerSet (c : Config) : Nat := c.rowsInMcu / c.rowsPerLine

/-- Rows copied in one after the other, the first of them at `rowIndex`. -/
def loadLines (c : Config) : Nat → Rows → List Bytes → Rows
  | _, rows, [] => rows
  | rowIndex, rows, l :: ls =>
    loadLines c (rowIndex + c.rowsPerLine) (copyInRows c rowIndex l rows).1 ls

/-- The row buffers for the row `q` of MCUs, white where the image has ended. -/
def rowSet (c : Config) (lines : List Bytes) (q : Nat) : Rows :=
  loadLines c 0 whiteRows ((lines.drop (q * c.linesPerSet)).take c.linesPerSet)

/-- The first `q` rows of MCUs, and `m` MCUs of the next one. -/
def raster (c : Config) (lines : List Bytes) (q m : Nat) : List (Rows × Nat) :=
  ((List.range q).flatMap fun r => (List.range c.mcusInRow).map fun i => (rowSet c lines r, i))
    ++ (List.range m).map fun i => (rowSet c lines q, i)

section

variable (codeBlock : Bool → List UInt8 → Nat → List Int → Coder → Coder × List UInt8)

def encodeAll (c : Config) (mcus : List (Rows × Nat)) : Coder × List UInt8 :=
  mcus.foldl (fun s (rows, i) =>
    ((encodeMcu codeBlock c rows i s.1).1, s.2 ++ (encodeMcu codeBlock c rows i s.1).2))
    (.init, [])

/-- The codes of `n` rows: `ceil(n / rows_in_mcu)` rows of MCUs. -/
def imageCodes (c : Config) (lines : List Bytes) : Coder × List UInt8 :=
  let n := lines.length * c.rowsPerLine
  encodeAll codeBlock c (raster c lines ((n + c.rowsInMcu - 1) / c.rowsInMcu) 0)

/-- What follows the codes: the last bits, the number of rows if it was asked for, the end. -/
def trailer (c : Config) (coder : Coder) (n : Nat) : List UInt8 :=
  (writeBitsFlush coder).2 ++ (if c.fOutputDNL then emWriteDNL n else []) ++ emWriteEOI

end

def frameHeight : Nat → List UInt8 → Option Nat
  | fuel + 1, a :: marker :: hi :: lo :: data =>
    if a ≠ 0xff then none
    else if marker = 0xc0 then
      data[1]?.bind fun h => data[2]?.map fun l => h.toNat * 256 + l.toNat
    else frameHeight fuel (data.drop (hi.toNat * 256 + lo.toNat - 2))
  | _, _ => none

def sofHeight : List UInt8 → Option Nat
  | a :: soi :: segments =>
    if a = 0xff ∧ soi = 0xd8 then frameHeight segments.length segments else none
  | _ => none

/-- The header, the codes of all MCUs from the first to the last and the end, and the number
of rows in the frame header unless the header was to be a dummy. -/
structure CompleteFile
    (codeBlock : Bool → List UInt8 → Nat → List Int → Coder → Coder × List UInt8)
    (c : Config) (first : Bytes) (lines : List Bytes) (file : List UInt8) : Prop where
  layout : ∃ page : Int, file = firstBytes c page first ++ (imageCodes codeBlock c lines).2
    ++ trailer c (imageCodes codeBlock c lines).1 (lines.length * c.rowsPerLine)
  height : c.dwDummyHeaderBytes = 0 → sofHeight file = some (lines.length * c.rowsPerLine)

/-- The client comes to the end of the job, and has the complete file then. -/
def WritesFile (codeBlock : Bool → List UInt8 → Nat → List Int → Coder → Coder × List UInt8)
    (g : JencInst) (lines : List Bytes) (offers : Nat → Offer) : Prop :=
  ∃ n file, rounds (call codeBlock) n (⟨g, lines, []⟩, offers) = .inr file
    ∧ CompleteFile codeBlock g.cfg.complete (offers 0).2 lines file

/-! ## The header -/

theorem putInt_length (v : Int) : (putInt v).length = 2 := rfl

theorem outputHeader_length (c : Config) (page page' : Int) :
    (outputHeader c page).length = (outputHeader c page').length := by
  simp only [outputHeader, emWriteSOF, List.length_append, putInt_length]

theorem firstBytes_length (c : Config) (page page' : Int) (first : Bytes) :
    (firstBytes c page first).length = (firstBytes c page' first).length := by
  rw [firstBytes, firstBytes]
  split
  · exact outputHeader_length c page page'
  · rfl

theorem byte_toNat (v : Int) : (byte v).toNat = (v % 256).toNat := by
  have h : (v % 256).toNat < 256 := by lia
  rw [byte, Nat.toUInt8, UInt8.toNat_ofNat', Nat.mod_eq_of_lt h]

theorem frameHeight_skip (fuel : Nat) (marker : UInt8) (data : List UInt8) {hi lo : UInt8}
    (hm : marker ≠ 0xc0) (hlen : hi.toNat * 256 + lo.toNat = data.length + 2)
    (rest : List UInt8) :
    frameHeight (fuel + 1) (0xff :: marker :: hi :: lo :: (data ++ rest))
      = frameHeight fuel rest := by
  rw [frameHeight, if_neg (by simp), if_neg hm, hlen, Nat.add_sub_cancel, List.drop_left]

theorem frameHeight_jfif (fuel : Nat) (xRes yRes : Int) (rest : List UInt8) :
    frameHeight (fuel + 1) (emWriteJfifApp0 xRes yRes ++ rest) = frameHeight fuel rest := by
  have hlen : (byte (16 / 256)).toNat * 256 + (byte 16).toNat = 14 + 2 := by decide
  have hskip := frameHeight_skip fuel 0xe0 ([0x4a, 0x46, 0x49, 0x46, 0]
    ++ [1, 0] ++ [1] ++ putInt xRes ++ putInt yRes ++ [0, 0]) (by decide) hlen rest
  simpa [emWriteJfifApp0, putMarker, putInt] using hskip

theorem frameHeight_g3 (fuel : Nat) (res : Int) (rest : List UInt8) :
    frameHeight (fuel + 1) (emWriteG3App1 res ++ rest) = frameHeight fuel rest := by
  have hlen : (byte (12 / 256)).toNat * 256 + (byte 12).toNat = 10 + 2 := by decide
  have hskip := frameHeight_skip fuel 0xe1 ([0x47, 0x33, 0x46, 0x41, 0x58, 0]
    ++ putInt 1994 ++ putInt ((res + 50) / 100 * 100)) (by decide) hlen rest
  simpa [emWriteG3App1, putMarker, putInt] using hskip

theorem frameHeight_sof (fuel : Nat) (width height : Int) (ncomps : Nat) (h v : List Nat)
    (rest : List UInt8) :
    frameHeight (fuel + 1) (emWriteSOF width height ncomps h v ++ rest)
      = some (height % 65536).toNat := by
  have hbytes : (byte (height / 256)).toNat * 256 + (byte height).toNat
      = (height % 65536).toNat := by
    rw [byte_toNat, byte_toNat]
    lia
  rw [← hbytes]
  rfl

theorem sofHeight_outputHeader (c : Config) (page : Int) (rest : List UInt8) :
    sofHeight (outputHeader c page ++ rest)
      = some ((if page < 0 then 0 else page) % 65536).toNat := by
  have hhead : ∀ app, (∀ fuel rest, frameHeight (fuel + 1) (app ++ rest) = frameHeight fuel rest) →
      2 ≤ app.length → ∀ sof, (∀ fuel rest, frameHeight (fuel + 1) (sof ++ rest)
        = some ((if page < 0 then 0 else page) % 65536).toNat) →
      sofHeight (emWriteSOI ++ app ++ sof ++ tableSegments c ++ rest)
        = some ((if page < 0 then 0 else page) % 65536).toNat := by
    intro app happ hlen sof hsof
    have hsegments : emWriteSOI ++ app ++ sof ++ tableSegments c ++ rest
        = 0xff :: 0xd8 :: (app ++ (sof ++ (tableSegments c ++ rest))) := by
      simp [emWriteSOI, putMarker]
    obtain ⟨fuel, hfuel⟩ : ∃ fuel,
        (app ++ (sof ++ (tableSegments c ++ rest))).length = fuel + 1 + 1 := by
      refine ⟨(app ++ (sof ++ (tableSegments c ++ rest))).length - 2, ?_⟩
      simp only [List.length_append]
      lia
    rw [hsegments, sofHeight, if_pos ⟨rfl, rfl⟩, hfuel, happ, hsof]
  rw [outputHeader]
  by_cases hfax : c.fOutputG3APP1 = true
  · rw [if_pos hfax]
    exact hhead _ (fun fuel => frameHeight_g3 fuel c.xRes) (by rw [emWriteG3App1]; simp [putMarker])
      _ fun fuel => frameHeight_sof fuel _ _ _ _ _
  · rw [if_neg hfax]
    exact hhead _ (fun fuel => frameHeight_jfif fuel c.xRes c.yRes)
      (by rw [emWriteJfifApp0]; simp [putMarker]) _ fun fuel => frameHeight_sof fuel _ _ _ _ _

/-! ## MCUs -/

theorem loadLines_concat (c : Config) (l : Bytes) :
    ∀ (ls : List Bytes) (rowIndex : Nat) (rows : Rows),
      loadLines c rowIndex rows (ls ++ [l])
        = (copyInRows c (rowIndex + ls.length * c.rowsPerLine) l
            (loadLines c rowIndex rows ls)).1
  | [], rowIndex, rows => by
    rw [List.nil_append, List.length_nil, Nat.zero_mul, Nat.add_zero]
    rfl
  | a :: ls, rowIndex, rows => by
    rw [List.cons_append, loadLines, loadLines_concat c l ls, List.length_cons, Nat.add_mul,
      Nat.one_mul, Nat.add_assoc, Nat.add_comm c.rowsPerLine]
    rfl

theorem raster_succ (c : Config) (lines : List Bytes) (q m : Nat) :
    raster c lines q (m + 1) = raster c lines q m ++ [(rowSet c lines q, m)] := by
  rw [raster, List.range_succ, List.map_append, ← List.append_assoc]
  rfl

theorem raster_full (c : Config) (lines : List Bytes) (q : Nat) :
    raster c lines q c.mcusInRow = raster c lines (q + 1) 0 := by
  rw [raster, raster, List.range_succ, List.flatMap_append, List.range_zero, List.map_nil,
    List.append_nil]
  simp

section Run

variable {codeBlock : Bool → List UInt8 → Nat → List Int → Coder → Coder × List UInt8}
  {c : Config} {lines : List Bytes}

theorem encodeAll_concat (mcus : List (Rows × Nat)) (rows : Rows) (i : Nat) :
    encodeAll codeBlock c (mcus ++ [(rows, i)])
      = ((encodeMcu codeBlock c rows i (encodeAll codeBlock c mcus).1).1,
          (encodeAll codeBlock c mcus).2
            ++ (encodeMcu codeBlock c rows i (encodeAll codeBlock c mcus).1).2) := by
  rw [encodeAll, List.foldl_append]
  rfl

/-- What has been coded when `q` rows of MCUs and `m` MCUs are sent. -/
abbrev coded (codeBlock : Bool → List UInt8 → Nat → List Int → Coder → Coder × List UInt8)
    (c : Config) (lines : List Bytes) (q m : Nat) : Coder × List UInt8 :=
  encodeAll codeBlock c (raster c lines q m)

/-! ## Between two calls -/

/-- The instance after `u` rows were taken and `q` rows of MCUs and `m` MCUs were sent behind
a header of `len` bytes. -/
structure Running (codeBlock : Bool → List UInt8 → Nat → List Int → Coder → Coder × List UInt8)
    (c : Config) (lines : List Bytes) (len u q m : Nat) (g : JencInst) : Prop where
  cfg : g.cfg = c
  did : g.fDidHeader = true
  received : g.rowsReceived = u * c.rowsPerLine
  coder : g.coder = (coded codeBlock c lines q m).1
  pos : g.dwOutNextPos = UInt32.ofNat (len + (coded codeBlock c lines q m).2.length)
  sent : g.mcusSent = m

/-- Rows are filled in: those of the row `q` of MCUs, unless the image ended before it. -/
structure Loading (c : Config) (lines : List Bytes) (u q : Nat) (g : JencInst) : Prop where
  loading : g.loadingRows = true
  place : (q * c.linesPerSet ≤ u ∧ u < q * c.linesPerSet + c.linesPerSet)
    ∨ (u = lines.length ∧ u ≤ q * c.linesPerSet ∧ q * c.linesPerSet < u + c.linesPerSet)
  loaded : g.rowsLoaded % c.rowsInMcu = (u - q * c.linesPerSet) * c.rowsPerLine
  rows : q * c.linesPerSet < u → g.inRows
    = loadLines c 0 whiteRows ((lines.drop (q * c.linesPerSet)).take (u - q * c.linesPerSet))

/-- The row `q` of MCUs is coded. -/
structure Sending (c : Config) (lines : List Bytes) (u q m : Nat) (g : JencInst) : Prop where
  loading : g.loadingRows = false
  inRow : m < c.mcusInRow
  place : u = q * c.linesPerSet + c.linesPerSet
    ∨ (u = lines.length ∧ q * c.linesPerSet < u ∧ u < q * c.linesPerSet + c.linesPerSet)
  loaded : g.rowsLoaded % c.rowsInMcu = 0
  rows : g.inRows = rowSet c lines q

def Phase (c : Config) (lines : List Bytes) (u q m : Nat) (g : JencInst) : Prop :=
  (m = 0 ∧ Loading c lines u q g) ∨ Sending c lines u q m g

/-- The numbers of rows and MCUs are those of an image. -/
structure Config.Sound (c : Config) : Prop where
  mcus : 0 < c.mcusInRow
  line : 0 < c.rowsPerLine
  set : 0 < c.linesPerSet
  rows : c.rowsInMcu = c.linesPerSet * c.rowsPerLine

variable {len u q m : Nat} {g : JencInst}

theorem sendMcu_last (h : g.cfg.mcusInRow ≤ g.mcusSent + 1) :
    (sendMcu codeBlock g).1.mcusSent = 0 ∧ (sendMcu codeBlock g).1.loadingRows = true := by
  simp [sendMcu, h]

theorem sendMcu_more (h : ¬ g.cfg.mcusInRow ≤ g.mcusSent + 1) :
    (sendMcu codeBlock g).1.mcusSent = g.mcusSent + 1
      ∧ (sendMcu codeBlock g).1.loadingRows = false := by
  simp [sendMcu, h]

theorem sendMcu_running (hc : c.Sound) (h : Running codeBlock c lines len u q m g)
    (hs : Sending c lines u q m g) :
    ∃ q' m', Running codeBlock c lines len u q' m' (sendMcu codeBlock g).1
      ∧ Phase c lines u q' m' (sendMcu codeBlock g).1
      ∧ (coded codeBlock c lines q' m').2
        = (coded codeBlock c lines q m).2 ++ (sendMcu codeBlock g).2
      ∧ q' * c.mcusInRow + m' = q * c.mcusInRow + m + 1
      ∧ (sendMcu codeBlock g).1.rowsInPage = g.rowsInPage := by
  have hmcu : encodeMcu codeBlock g.cfg g.inRows g.mcusSent g.coder
      = encodeMcu codeBlock c (rowSet c lines q) m (coded codeBlock c lines q m).1 := by
    rw [h.cfg, hs.rows, h.sent, h.coder]
  have hnext : coded codeBlock c lines q (m + 1)
      = ((encodeMcu codeBlock g.cfg g.inRows g.mcusSent g.coder).1,
          (coded codeBlock c lines q m).2
            ++ (encodeMcu codeBlock g.cfg g.inRows g.mcusSent g.coder).2) := by
    rw [hmcu, coded, raster_succ, encodeAll_concat]
  have hpos : g.dwOutNextPos
      + UInt32.ofNat (encodeMcu codeBlock g.cfg g.inRows g.mcusSent g.coder).2.length
      = UInt32.ofNat (len + (coded codeBlock c lines q (m + 1)).2.length) := by
    rw [h.pos, hnext, List.length_append, ← Nat.add_assoc, ← UInt32.ofNat_add]
  have hplace := hs.place
  by_cases hlast : c.mcusInRow ≤ m + 1
  · -- it was the last one of the row
    have hfull : coded codeBlock c lines q (m + 1) = coded codeBlock c lines (q + 1) 0 := by
      have heq : m + 1 = c.mcusInRow := Nat.le_antisymm hs.inRow hlast
      rw [coded, coded, ← raster_full, heq]
    have hlast' : g.cfg.mcusInRow ≤ g.mcusSent + 1 := by rw [h.cfg, h.sent]; exact hlast
    have hset : (q + 1) * c.linesPerSet = q * c.linesPerSet + c.linesPerSet := Nat.succ_mul _ _
    refine ⟨q + 1, 0, ⟨h.cfg, h.did, h.received, ?_, ?_, ?_⟩, .inl ⟨rfl, ?_, ?_, ?_, ?_⟩, ?_, ?_,
      rfl⟩
    · rw [← hfull, hnext]
      rfl
    · rw [← hfull]
      exact hpos
    · exact (sendMcu_last hlast').1
    · exact (sendMcu_last hlast').2
    · rw [hset]
      have hpos' := hc.set
      rcases hplace with hu | ⟨hu, hgt, hlt⟩
      · exact .inl ⟨hu.ge, by lia⟩
      · exact .inr ⟨hu, hlt.le, by lia⟩
    · have hle : u ≤ (q + 1) * c.linesPerSet := by lia
      rw [Nat.sub_eq_zero_of_le hle, Nat.zero_mul]
      exact hs.loaded
    · intro hlt
      lia
    · rw [← hfull, hnext]
      rfl
    · have := hs.inRow
      rw [Nat.succ_mul]
      lia
  · have hlast' : ¬ g.cfg.mcusInRow ≤ g.mcusSent + 1 := by rw [h.cfg, h.sent]; exact hlast
    refine ⟨q, m + 1, ⟨h.cfg, h.did, h.received, ?_, hpos, ?_⟩,
      .inr ⟨?_, by lia, hplace, hs.loaded, hs.rows⟩, ?_, rfl, rfl⟩
    · rw [hnext]
      rfl
    · rw [(sendMcu_more hlast').1, h.sent]
    · exact (sendMcu_more hlast').2
    · rw [hnext]
      rfl

theorem sendMcus_running (hc : c.Sound) (avail : UInt32) (g : JencInst) (out : List UInt8)
    (h : Running codeBlock c lines len u q m g) (hp : Phase c lines u q m g) :
    ∃ q' m' extra, Running codeBlock c lines len u q' m' (sendMcus codeBlock avail g out).1
      ∧ Phase c lines u q' m' (sendMcus codeBlock avail g out).1
      ∧ (sendMcus codeBlock avail g out).2 = out ++ extra
      ∧ (coded codeBlock c lines q' m').2 = (coded codeBlock c lines q m).2 ++ extra
      ∧ q * c.mcusInRow + m ≤ q' * c.mcusInRow + m'
      ∧ (g.loadingRows = false → maxMcuSize < (avail - UInt32.ofNat out.length).toNat →
        q * c.mcusInRow + m < q' * c.mcusInRow + m')
      ∧ (sendMcus codeBlock avail g out).1.rowsInPage = g.rowsInPage := by
  induction g, out using sendMcus.induct codeBlock avail generalizing q m with
  | case1 g out hroom ih =>
    have hs : Sending c lines u q m g := by
      rcases hp with ⟨-, hl⟩ | hs
      · exact absurd hl.loading (by rw [hroom.1]; decide)
      · exact hs
    obtain ⟨q', m', hrun, hphase, hbytes, hcount, hpage⟩ := sendMcu_running hc h hs
    obtain ⟨q'', m'', extra, hrun', hphase', hout, hbytes', hle, -, hpage'⟩ := ih hrun hphase
    rw [sendMcus, if_pos hroom]
    refine ⟨q'', m'', (sendMcu codeBlock g).2 ++ extra, hrun', hphase', ?_, ?_, by lia,
      fun _ _ => by lia, hpage'.trans hpage⟩
    · rw [hout, List.append_assoc]
    · rw [hbytes', hbytes, List.append_assoc]
  | case2 g out hroom =>
    rw [sendMcus, if_neg hroom]
    exact ⟨q, m, [], h, hp, (List.append_nil _).symm, (List.append_nil _).symm, Nat.le_refl _,
      fun hl hr => absurd ⟨hl, hr⟩ hroom, rfl⟩

theorem sendMcus_loading (h : g.loadingRows = true) (avail : UInt32) (out : List UInt8) :
    sendMcus codeBlock avail g out = (g, out) := by
  have hnot : ¬ (g.loadingRows = false ∧ maxMcuSize < (avail - UInt32.ofNat out.length).toNat) := by
    rw [h]
    rintro ⟨h', -⟩
    cases h'
  rw [sendMcus, if_neg hnot]

theorem copyInRows_rows (c : Config) (rowIndex : Nat) (inBuf : Bytes) (rows : Rows) :
    (copyInRows c rowIndex inBuf rows).2.1 = c.rowsPerLine := by
  by_cases hpix : c.TakesPixels
  · simp [copyInRows, Config.rowsPerLine, hpix]
  · simp [copyInRows, Config.rowsPerLine, hpix]

theorem whitened (g : JencInst) (n : Nat) :
    ∃ rows, (if n = 0 then { g with inRows := whiteRows } else g) = { g with inRows := rows } := by
  by_cases hn : n = 0
  · exact ⟨whiteRows, if_pos hn⟩
  · exact ⟨g.inRows, if_neg hn⟩

theorem loadedRows (hc : c.Sound) (hl : Loading c lines u q g) :
    (if (u - q * c.linesPerSet) * c.rowsPerLine = 0 then { g with inRows := whiteRows }
        else g).inRows
      = loadLines c 0 whiteRows
        ((lines.drop (q * c.linesPerSet)).take (u - q * c.linesPerSet)) := by
  have hline := hc.line
  by_cases hu : q * c.linesPerSet < u
  · have hne : (u - q * c.linesPerSet) * c.rowsPerLine ≠ 0 :=
      (Nat.mul_pos (Nat.sub_pos_of_lt hu) hline).ne'
    rw [if_neg hne]
    exact hl.rows hu
  · rw [Nat.sub_eq_zero_of_le (Nat.le_of_not_lt hu), Nat.zero_mul, if_pos rfl, List.take_zero]
    rfl

theorem takeRow_running (hc : c.Sound) (h : Running codeBlock c lines len u q 0 g)
    (hl : Loading c lines u q g) (hu : u < lines.length) (r : Reply) :
    Running codeBlock c lines len (u + 1) q 0 (loadRows g (some lines[u]) r).1
      ∧ Phase c lines (u + 1) q 0 (loadRows g (some lines[u]) r).1
      ∧ (loadRows g (some lines[u]) r).1.rowsInPage = g.rowsInPage
      ∧ (loadRows g (some lines[u]) r).2.consumed = true
      ∧ (loadRows g (some lines[u]) r).2.done = r.done
      ∧ (loadRows g (some lines[u]) r).2.output = r.output
      ∧ (loadRows g (some lines[u]) r).2.outputThisPos = r.outputThisPos := by
  have hline := hc.line
  have hset := hc.set
  have hplace : q * c.linesPerSet ≤ u ∧ u < q * c.linesPerSet + c.linesPerSet := by
    rcases hl.place with hp | ⟨hp, -⟩
    · exact hp
    · lia
  obtain ⟨j, hj⟩ : ∃ j, u = q * c.linesPerSet + j := Nat.exists_eq_add_of_le hplace.1
  have hju : u - q * c.linesPerSet = j := by lia
  have hju' : u + 1 - q * c.linesPerSet = j + 1 := by lia
  have hnLoaded : g.rowsLoaded % g.cfg.rowsInMcu = j * c.rowsPerLine := by
    rw [h.cfg, hl.loaded, hju]
  have hwhite := loadedRows hc hl
  rw [hju] at hwhite
  have hnRows : ∀ rows, (copyInRows c (j * c.rowsPerLine) lines[u] rows).2.1 = c.rowsPerLine :=
    copyInRows_rows c _ _
  -- the buffers with this row in them
  have hrows : (copyInRows c (j * c.rowsPerLine) lines[u]
      (loadLines c 0 whiteRows ((lines.drop (q * c.linesPerSet)).take j))).1
        = loadLines c 0 whiteRows ((lines.drop (q * c.linesPerSet)).take (j + 1)) := by
    have hjlen : j < (lines.drop (q * c.linesPerSet)).length := by
      rw [List.length_drop]
      lia
    have hget : (lines.drop (q * c.linesPerSet))[j] = lines[u] := by
      rw [List.getElem_drop]
      congr 1
      exact hj.symm
    have htake : (lines.drop (q * c.linesPerSet)).take (j + 1)
        = (lines.drop (q * c.linesPerSet)).take j ++ [lines[u]] := by
      rw [← hget, List.take_append_getElem hjlen]
    rw [htake, loadLines_concat, List.length_take, Nat.min_eq_left hjlen.le, Nat.zero_add]
  have hmod : (g.rowsLoaded + c.rowsPerLine) % c.rowsInMcu
      = (j + 1) % c.linesPerSet * c.rowsPerLine := by
    have hloaded := hl.loaded
    rw [hju] at hloaded
    rw [Nat.add_mod, hloaded, ← Nat.mul_mod_mul_right, Nat.succ_mul, ← hc.rows]
    conv => rhs; rw [Nat.add_mod]
    rw [Nat.mod_eq_of_lt (a := j * c.rowsPerLine)]
    rw [hc.rows]
    exact Nat.mul_lt_mul_of_pos_right (by lia) hline
  obtain ⟨rows, hg⟩ := whitened g (j * c.rowsPerLine)
  have hload : loadRows g (some lines[u]) r
      = takeRow { g with inRows := rows } (j * c.rowsPerLine) lines[u] r := by
    rw [loadRows, hnLoaded, hg]
  rw [hg] at hwhite
  have hcopy : copyInRows g.cfg (j * c.rowsPerLine) lines[u] rows
      = copyInRows c (j * c.rowsPerLine) lines[u]
        (loadLines c 0 whiteRows ((lines.drop (q * c.linesPerSet)).take j)) := by
    rw [h.cfg, ← hwhite]
  have hloadedRows : g.rowsLoaded + (copyInRows g.cfg (j * c.rowsPerLine) lines[u] rows).2.1
      = g.rowsLoaded + c.rowsPerLine := by rw [hcopy, hnRows]
  rw [hload]
  refine ⟨⟨h.cfg, h.did, ?_, h.coder, h.pos, h.sent⟩, ?_, rfl, ?_, rfl, rfl, rfl⟩
  · show g.rowsReceived + (copyInRows g.cfg (j * c.rowsPerLine) lines[u] rows).2.1 = _
    rw [hcopy, hnRows, h.received, Nat.succ_mul]
  · have hloading : (takeRow { g with inRows := rows } (j * c.rowsPerLine) lines[u] r).1.loadingRows
        = if (j + 1) % c.linesPerSet * c.rowsPerLine = 0 then false else true := by
      show (if (g.rowsLoaded + (copyInRows g.cfg (j * c.rowsPerLine) lines[u] rows).2.1)
          % g.cfg.rowsInMcu = 0 then false else g.loadingRows) = _
      rw [hloadedRows, h.cfg, hmod, hl.loading]
    have hmod' : (takeRow { g with inRows := rows } (j * c.rowsPerLine) lines[u] r).1.rowsLoaded
        % c.rowsInMcu = (j + 1) % c.linesPerSet * c.rowsPerLine := by
      show (g.rowsLoaded + (copyInRows g.cfg (j * c.rowsPerLine) lines[u] rows).2.1)
          % c.rowsInMcu = _
      rw [hloadedRows, hmod]
    have hrows' : (takeRow { g with inRows := rows } (j * c.rowsPerLine) lines[u] r).1.inRows
        = loadLines c 0 whiteRows ((lines.drop (q * c.linesPerSet)).take (j + 1)) := by
      show (copyInRows g.cfg (j * c.rowsPerLine) lines[u] rows).1 = _
      rw [hcopy, hrows]
    by_cases hfull : j + 1 = c.linesPerSet
    · -- the row buffers are full
      rw [hfull, Nat.mod_self, Nat.zero_mul] at hloading hmod'
      rw [hfull] at hrows'
      exact .inr ⟨hloading, hc.mcus, .inl (by lia), hmod', hrows'⟩
    · have hlt : j + 1 < c.linesPerSet := by lia
      have hne : (j + 1) * c.rowsPerLine ≠ 0 := (Nat.mul_pos (Nat.succ_pos j) hline).ne'
      rw [Nat.mod_eq_of_lt hlt] at hloading hmod'
      rw [if_neg hne] at hloading
      refine .inl ⟨rfl, hloading, .inl ⟨by lia, by lia⟩, ?_, fun _ => ?_⟩
      · rw [hju', hmod']
      · rw [hju', hrows']
  · show decide ((copyInRows g.cfg (j * c.rowsPerLine) lines[u] rows).2.1 > 0) = true
    rw [hcopy, hnRows]
    exact decide_eq_true hline

theorem flush_part (hc : c.Sound) (h : Running codeBlock c lines len u q 0 g)
    (hl : Loading c lines u q g) (hu : u = lines.length) (hpart : q * c.linesPerSet < u)
    (r : Reply) :
    Running codeBlock c lines len u q 0 (loadRows g none r).1
      ∧ Sending c lines u q 0 (loadRows g none r).1
      ∧ (loadRows g none r).1.rowsInPage = g.rowsInPage ∧ (loadRows g none r).2 = r := by
  have hlt : u < q * c.linesPerSet + c.linesPerSet := by
    rcases hl.place with hp | ⟨-, hle, -⟩
    · exact hp.2
    · lia
  have hloaded := hl.loaded
  have hne : (u - q * c.linesPerSet) * c.rowsPerLine ≠ 0 :=
    (Nat.mul_pos (Nat.sub_pos_of_lt hpart) hc.line).ne'
  have hless : (u - q * c.linesPerSet) * c.rowsPerLine < c.rowsInMcu := by
    rw [hc.rows]
    exact Nat.mul_lt_mul_of_pos_right (by lia) hc.line
  have hload : loadRows g none r = ({ g with
      loadingRows := false
      rowsLoaded := g.rowsLoaded
        + (c.rowsInMcu - (u - q * c.linesPerSet) * c.rowsPerLine) }, r) := by
    have hn : g.rowsLoaded % g.cfg.rowsInMcu = (u - q * c.linesPerSet) * c.rowsPerLine := by
      rw [h.cfg, hloaded]
    rw [loadRows, hn, if_neg hne]
    show flush g _ r = _
    rw [flush, if_pos hne, h.cfg]
  rw [hload]
  refine ⟨⟨h.cfg, h.did, h.received, h.coder, h.pos, h.sent⟩,
    ⟨rfl, hc.mcus, .inr ⟨hu, hpart, hlt⟩, ?_, ?_⟩, rfl, rfl⟩
  · show (g.rowsLoaded + (c.rowsInMcu - (u - q * c.linesPerSet) * c.rowsPerLine)) % c.rowsInMcu = 0
    have hdiv := Nat.div_add_mod g.rowsLoaded c.rowsInMcu
    rw [hloaded] at hdiv
    have hup : g.rowsLoaded + (c.rowsInMcu - (u - q * c.linesPerSet) * c.rowsPerLine)
        = c.rowsInMcu * (g.rowsLoaded / c.rowsInMcu + 1) := by
      rw [Nat.mul_succ]
      lia
    rw [hup, Nat.mul_mod_right]
  · -- what is left of the image does not fill the row buffers
    show g.inRows = rowSet c lines q
    rw [hl.rows hpart, rowSet]
    have hlen : (lines.drop (q * c.linesPerSet)).length = u - q * c.linesPerSet := by
      rw [List.length_drop, hu]
    rw [List.take_of_length_le hlen.le, List.take_of_length_le (by lia)]

/-- The header counts fewer rows than there will be, or none, or too many. -/
def Pending (c : Config) (lines : List Bytes) (page : Int) : Prop :=
  (page < 0 ∨ ((lines.length * c.rowsPerLine : Nat) : Int) < page) ∧ c.dwDummyHeaderBytes = 0

instance (c : Config) (lines : List Bytes) (page : Int) : Decidable (Pending c lines page) :=
  inferInstanceAs (Decidable (_ ∧ _))

theorem flush_none (h : Running codeBlock c lines len u q 0 g) (hl : Loading c lines u q g)
    (hu : u = lines.length) (hle : u ≤ q * c.linesPerSet) (r : Reply) :
    ∃ rows, loadRows g none r =
      if Pending c lines g.rowsInPage then
        ({ g with inRows := rows, rowsInPage := g.rowsReceived },
          { r with output := outputHeader c g.rowsReceived, outputThisPos := 0 })
      else
        ({ g with inRows := rows, coder := (writeBitsFlush g.coder).1 },
          { r with done := true, output := trailer c g.coder g.rowsReceived }) := by
  obtain ⟨rows, hg⟩ := whitened g 0
  refine ⟨rows, ?_⟩
  have hn : g.rowsLoaded % g.cfg.rowsInMcu = 0 := by
    rw [h.cfg, hl.loaded, Nat.sub_eq_zero_of_le hle, Nat.zero_mul]
  have hpend : Pending c lines g.rowsInPage
      ↔ (g.rowsInPage < 0 ∨ (g.rowsReceived : Int) < g.rowsInPage)
        ∧ g.cfg.dwDummyHeaderBytes = 0 := by
    rw [Pending, h.received, hu, h.cfg]
  rw [loadRows, hn, hg]
  show flush _ 0 r = _
  rw [flush, if_neg (fun h => h rfl)]
  by_cases hp : Pending c lines g.rowsInPage
  · rw [if_pos hp, if_pos (hpend.mp hp), h.cfg]
  · rw [if_neg hp, if_neg (mt hpend.mpr hp), trailer, h.cfg]

/-! ## Prefixes of the image -/

theorem raster_prefix_row (c : Config) (lines : List Bytes) (q : Nat) {m : Nat}
    (hm : m ≤ c.mcusInRow) : raster c lines q m <+: raster c lines (q + 1) 0 := by
  rw [← raster_full]
  obtain ⟨k, hk⟩ := Nat.exists_eq_add_of_le hm
  rw [hk, raster, raster, List.range_add, List.map_append, ← List.append_assoc]
  exact List.prefix_append _ _

theorem raster_begins (c : Config) (lines : List Bytes) {q q' : Nat} (hq : q ≤ q') :
    raster c lines q 0 <+: raster c lines q' 0 := by
  induction q', hq using Nat.le_induction with
  | base => exact List.prefix_rfl
  | succ q' _ ih => exact ih.trans (raster_prefix_row c lines q' (Nat.zero_le _))

theorem encodeAll_begins {a b : List (Rows × Nat)} (h : a <+: b) :
    (encodeAll codeBlock c a).2 <+: (encodeAll codeBlock c b).2 := by
  obtain ⟨t, rfl⟩ := h
  induction t using List.reverseRecOn with
  | nil => exact ⟨[], by rw [List.append_nil, List.append_nil]⟩
  | append_singleton t x ih =>
    obtain ⟨rows, i⟩ := x
    rw [← List.append_assoc, encodeAll_concat]
    exact ih.trans (List.prefix_append _ _)

abbrev mcuRows (c : Config) (lines : List Bytes) : Nat :=
  (lines.length * c.rowsPerLine + c.rowsInMcu - 1) / c.rowsInMcu

theorem le_mcuRows (hc : c.Sound) (h : q * c.linesPerSet < lines.length + c.linesPerSet) :
    q ≤ mcuRows c lines := by
  have hpos : 0 < c.rowsInMcu := by
    rw [hc.rows]
    exact Nat.mul_pos hc.set hc.line
  have hmul : q * c.rowsInMcu < lines.length * c.rowsPerLine + c.rowsInMcu := by
    rw [hc.rows, ← Nat.mul_assoc, ← Nat.add_mul]
    exact Nat.mul_lt_mul_of_pos_right h hc.line
  exact (Nat.le_div_iff_mul_le hpos).mpr (by lia)

theorem mcuRows_le (hc : c.Sound) (h : lines.length ≤ q * c.linesPerSet) :
    mcuRows c lines ≤ q := by
  have hpos : 0 < c.rowsInMcu := by
    rw [hc.rows]
    exact Nat.mul_pos hc.set hc.line
  have hmul : lines.length * c.rowsPerLine ≤ q * c.rowsInMcu := by
    rw [hc.rows, ← Nat.mul_assoc]
    exact Nat.mul_le_mul_right _ h
  refine Nat.le_of_lt_succ ((Nat.div_lt_iff_lt_mul hpos).mpr ?_)
  rw [Nat.succ_mul]
  lia

variable (codeBlock) in
theorem phase_bound (hc : c.Sound) (hu : u ≤ lines.length) (hp : Phase c lines u q m g) :
    (coded codeBlock c lines q m).2 <+: (coded codeBlock c lines (mcuRows c lines) 0).2
      ∧ q * c.mcusInRow + m ≤ mcuRows c lines * c.mcusInRow := by
  have hset := hc.set
  rcases hp with ⟨rfl, hl⟩ | hs
  · have hq : q ≤ mcuRows c lines := le_mcuRows hc (by rcases hl.place with h | h <;> lia)
    exact ⟨encodeAll_begins (raster_begins c lines hq), Nat.mul_le_mul_right _ hq⟩
  · have hq : q + 1 ≤ mcuRows c lines := by
      refine le_mcuRows hc ?_
      rw [Nat.succ_mul]
      rcases hs.place with h | h <;> lia
    have hm := hs.inRow
    refine ⟨encodeAll_begins ((raster_prefix_row c lines q hm.le).trans
      (raster_begins c lines hq)), ?_⟩
    have hmul := Nat.mul_le_mul_right c.mcusInRow hq
    rw [Nat.succ_mul] at hmul
    lia

/-! ## A call -/

theorem place_end (file chunk : List UInt8) : place file file.length chunk = file ++ chunk := by
  rw [place, List.take_length, Nat.sub_self, List.replicate_zero, List.append_nil,
    List.drop_eq_nil_of_le (Nat.le_add_right _ _), List.append_nil]

theorem place_front {old new : List UInt8} (h : old.length = new.length) (rest : List UInt8) :
    place (old ++ rest) 0 new = new ++ rest := by
  rw [place, List.take_zero, Nat.zero_sub, List.replicate_zero, List.nil_append, List.nil_append,
    Nat.zero_add, ← h, List.drop_left]

/-- What is left to do: MCUs to send, rows to take, the header to write again. -/
def work (c : Config) (lines : List Bytes) (u q m : Nat) (page : Int) : Nat :=
  (mcuRows c lines * c.mcusInRow - (q * c.mcusInRow + m)) + (lines.length - u)
    + (if Pending c lines page then 1 else 0)

variable {declared : Int} {first : Bytes} {s : Session}

structure Between
    (codeBlock : Bool → List UInt8 → Nat → List Int → Coder → Coder × List UInt8)
    (c : Config) (lines : List Bytes) (declared : Int) (first : Bytes) (u q m : Nat)
    (s : Session) : Prop where
  run : Running codeBlock c lines (firstBytes c declared first).length u q m s.g
  phase : Phase c lines u q m s.g
  le : u ≤ lines.length
  left : s.left = lines.drop u
  page : s.g.rowsInPage = declared ∨ (u = lines.length ∧ Pending c lines declared
    ∧ s.g.rowsInPage = ((lines.length * c.rowsPerLine : Nat) : Int))
  file : s.file = firstBytes c s.g.rowsInPage first ++ (coded codeBlock c lines q m).2

/-- Positions in the file are 32-bit values. -/
def Fits (codeBlock : Bool → List UInt8 → Nat → List Int → Coder → Coder × List UInt8)
    (c : Config) (lines : List Bytes) (declared : Int) (first : Bytes) : Prop :=
  (firstBytes c declared first ++ (imageCodes codeBlock c lines).2).length < 2 ^ 32

theorem Between.fileLength (hb : Between codeBlock c lines declared first u q m s) :
    s.file.length = (firstBytes c declared first).length
      + (coded codeBlock c lines q m).2.length := by
  rw [hb.file, List.length_append, firstBytes_length c s.g.rowsInPage declared]

theorem Between.pos (hc : c.Sound) (hfit : Fits codeBlock c lines declared first)
    (hb : Between codeBlock c lines declared first u q m s) :
    s.g.dwOutNextPos.toNat = s.file.length := by
  have hle := (phase_bound codeBlock hc hb.le hb.phase).1.length_le
  have hfit' := hfit
  rw [Fits, List.length_append] at hfit'
  have hlt : s.file.length < 2 ^ 32 := by
    rw [hb.fileLength]
    exact lt_of_le_of_lt (Nat.add_le_add_left hle _) hfit'
  rw [hb.run.pos, ← hb.fileLength, UInt32.toNat_ofNat', Nat.mod_eq_of_lt hlt]

theorem send_between (hc : c.Sound) (hfit : Fits codeBlock c lines declared first)
    (hb : Between codeBlock c lines declared first u q m s) {u' : Nat} {g' : JencInst}
    (hrun : Running codeBlock c lines (firstBytes c declared first).length u' q m g')
    (hphase : Phase c lines u' q m g') (hpage : g'.rowsInPage = s.g.rowsInPage) (hle : u ≤ u')
    (hu' : u' ≤ lines.length) (hprog : u < u' ∨ g'.loadingRows = false) {avail : UInt32}
    (havail : minOutBufLen ≤ avail.toNat) :
    ∃ q' m', Between codeBlock c lines declared first u' q' m'
        ⟨(sendMcus codeBlock avail g' []).1, lines.drop u',
          place s.file s.g.dwOutNextPos.toNat (sendMcus codeBlock avail g' []).2⟩
      ∧ work c lines u' q' m' (sendMcus codeBlock avail g' []).1.rowsInPage
        < work c lines u q m s.g.rowsInPage := by
  obtain ⟨q', m', extra, hrun', hphase', hout, hcoded, hcount, hmore, hpage'⟩ :=
    sendMcus_running hc avail g' [] hrun hphase
  rw [List.nil_append] at hout
  refine ⟨q', m', ⟨hrun', hphase', hu', rfl, ?_, ?_⟩, ?_⟩
  · rw [hpage', hpage]
    rcases hb.page with h | ⟨hend, h⟩
    · exact .inl h
    · exact .inr ⟨by lia, h⟩
  · show place s.file s.g.dwOutNextPos.toNat (sendMcus codeBlock avail g' []).2 = _
    rw [hb.pos hc hfit, place_end, hout, hpage', hpage, hcoded, hb.file, List.append_assoc]
  · have hbound := (phase_bound codeBlock hc hu' hphase').2
    have hroom : maxMcuSize < (avail - UInt32.ofNat ([] : List UInt8).length).toNat := by
      have hzero : avail - UInt32.ofNat ([] : List UInt8).length = avail := by simp
      rw [hzero]
      exact lt_of_lt_of_le (by decide) havail
    rw [hpage', hpage, work, work]
    rcases hprog with hlt | hsend
    · lia
    · have := hmore hsend hroom
      lia

variable (codeBlock) in
theorem call_eq (hdid : s.g.fDidHeader = true) (offers : Nat → Offer) :
    ∃ r : Reply, r.output = [] ∧ r.outputThisPos = s.g.dwOutNextPos ∧ r.done = false
      ∧ r.consumed = false ∧
      let p := if s.g.loadingRows then loadRows s.g s.left.head? r else (s.g, r)
      let f := sendMcus codeBlock (offers 0).1 p.1 p.2.output
      let file := place s.file p.2.outputThisPos.toNat f.2
      call codeBlock (s, offers)
        = if p.2.done then .inr file
          else .inl (⟨f.1, if p.2.consumed then s.left.tail else s.left, file⟩,
            fun i => offers (i + 1)) := by
  refine ⟨⟨false, false, 0, s.g.dwInNextPos, [], s.g.dwOutNextPos⟩, rfl, rfl, rfl, rfl, ?_⟩
  have hdid' : ¬ s.g.fDidHeader = false := by rw [hdid]; decide
  dsimp only
  rw [call, convert, if_neg hdid']

/-- The file that the last call leaves: the header with the count that was in it then. -/
def Final (codeBlock : Bool → List UInt8 → Nat → List Int → Coder → Coder × List UInt8)
    (c : Config) (lines : List Bytes) (declared : Int) (first : Bytes) (file : List UInt8) : Prop :=
  ∃ page : Int, file = firstBytes c page first ++ (imageCodes codeBlock c lines).2
      ++ trailer c (imageCodes codeBlock c lines).1 (lines.length * c.rowsPerLine)
    ∧ ¬ Pending c lines page
    ∧ (page = declared ∨ (Pending c lines declared
      ∧ page = ((lines.length * c.rowsPerLine : Nat) : Int)))

theorem rewrite_between (hb : Between codeBlock c lines declared first u q 0 s)
    (hl : Loading c lines u q s.g) (hend : u = lines.length) (hle : u ≤ q * c.linesPerSet)
    (hpend : Pending c lines s.g.rowsInPage) (rows : Rows) :
    Between codeBlock c lines declared first u q 0
        ⟨{ s.g with inRows := rows, rowsInPage := s.g.rowsReceived }, s.left,
          place s.file 0 (outputHeader c s.g.rowsReceived)⟩
      ∧ work c lines u q 0 s.g.rowsReceived < work c lines u q 0 s.g.rowsInPage := by
  have hcount : s.g.rowsReceived = lines.length * c.rowsPerLine := by
    rw [hb.run.received, hend]
  have hnot : ¬ Pending c lines (s.g.rowsReceived : Int) := by
    rw [hcount]
    rintro ⟨h, -⟩
    omega
  have hfirst : ∀ page, firstBytes c page first = outputHeader c page := fun page =>
    if_pos hpend.2
  have hdeclared : s.g.rowsInPage = declared := by
    rcases hb.page with h | ⟨-, -, h⟩
    · exact h
    · rw [h] at hpend
      exact absurd hpend (by rw [← hcount]; exact hnot)
  refine ⟨⟨⟨hb.run.cfg, hb.run.did, hb.run.received, hb.run.coder, hb.run.pos, hb.run.sent⟩,
    .inl ⟨rfl, hl.loading, hl.place, hl.loaded, fun hlt => absurd hlt (Nat.not_lt.mpr hle)⟩,
    hb.le, hb.left, .inr ⟨hend, hdeclared ▸ hpend, ?_⟩, ?_⟩, ?_⟩
  · show (s.g.rowsReceived : Int) = _
    rw [hcount]
  · show place s.file 0 (outputHeader c s.g.rowsReceived) = _
    rw [hb.file, hfirst, hfirst, place_front (outputHeader_length c _ _)]
  · rw [work, work, if_pos hpend, if_neg hnot]
    omega

theorem call_running (hc : c.Sound) (hfit : Fits codeBlock c lines declared first)
    (hb : Between codeBlock c lines declared first u q m s) {offers : Nat → Offer}
    (hroom : minOutBufLen ≤ (offers 0).1.toNat) :
    Sum.elim
      (fun s' => (∃ u' q' m', Between codeBlock c lines declared first u' q' m' s'.1
          ∧ work c lines u' q' m' s'.1.g.rowsInPage < work c lines u q m s.g.rowsInPage)
        ∧ s'.2 = fun i => offers (i + 1))
      (Final codeBlock c lines declared first) (call codeBlock (s, offers)) := by
  obtain ⟨r, hout, hpos, hdone, hconsumed, hcall⟩ :=
    call_eq codeBlock hb.run.did offers
  dsimp only at hcall
  rcases hb.phase with ⟨rfl, hl⟩ | hs
  · rw [if_pos hl.loading] at hcall
    by_cases hu : u < lines.length
    · -- the next row
      have hhead : s.left.head? = some lines[u] := by
        rw [hb.left, List.head?_drop, List.getElem?_eq_getElem hu]
      obtain ⟨hrun, hphase, hpage, hcons, hdone', hout', hpos'⟩ :=
        takeRow_running hc hb.run hl hu r
      rw [hhead, hdone', hdone, if_neg Bool.false_ne_true, hcons, if_pos rfl, hout', hout, hpos',
        hpos, hb.left, List.tail_drop] at hcall
      obtain ⟨q', m', hb', hwork⟩ := send_between hc hfit hb hrun hphase hpage (Nat.le_succ u) hu
        (.inl (Nat.lt_succ_self u)) hroom
      rw [hcall]
      exact ⟨⟨u + 1, q', m', hb', hwork⟩, rfl⟩
    · have hend : u = lines.length := Nat.le_antisymm hb.le (Nat.le_of_not_lt hu)
      have hhead : s.left.head? = none := by
        rw [hb.left, hend, List.drop_length]
        rfl
      rw [hhead] at hcall
      by_cases hpart : q * c.linesPerSet < u
      · -- rows that do not fill the row buffers
        obtain ⟨hrun, hsend, hpage, hr⟩ := flush_part hc hb.run hl hend hpart r
        rw [hr, hdone, if_neg Bool.false_ne_true, hconsumed, if_neg Bool.false_ne_true, hout, hpos,
          hb.left] at hcall
        obtain ⟨q', m', hb', hwork⟩ := send_between hc hfit hb hrun (.inr hsend) hpage
          (Nat.le_refl u) hb.le (.inr hsend.loading) hroom
        rw [hcall]
        exact ⟨⟨u, q', m', hb', hwork⟩, rfl⟩
      · have hle : u ≤ q * c.linesPerSet := Nat.le_of_not_lt hpart
        obtain ⟨rows, hflush⟩ := flush_none hb.run hl hend hle r
        by_cases hpend : Pending c lines s.g.rowsInPage
        · -- the header once more
          rw [hflush, if_pos hpend] at hcall
          dsimp only at hcall
          rw [hdone, if_neg Bool.false_ne_true, hconsumed, if_neg Bool.false_ne_true,
            sendMcus_loading (g := { s.g with inRows := rows, rowsInPage := s.g.rowsReceived })
              hl.loading] at hcall
          obtain ⟨hb', hwork⟩ := rewrite_between hb hl hend hle hpend rows
          rw [hcall]
          exact ⟨⟨u, q, 0, hb', hwork⟩, rfl⟩
        · -- the end
          rw [hflush, if_neg hpend] at hcall
          dsimp only at hcall
          rw [if_pos rfl, sendMcus_loading (g := { s.g with
              inRows := rows, coder := (writeBitsFlush s.g.coder).1 }) hl.loading,
            hpos, hb.pos hc hfit, place_end] at hcall
          rw [hcall]
          have hq : q = mcuRows c lines := by
            refine Nat.le_antisymm (le_mcuRows hc ?_) (mcuRows_le hc (hend ▸ hle))
            have := hc.set
            rcases hl.place with h | h <;> lia
          refine ⟨s.g.rowsInPage, ?_, hpend, ?_⟩
          · rw [hb.file, hb.run.coder, hb.run.received, hend, hq]
            rfl
          · exact hb.page.imp_right fun h => h.2
  · -- more of the row of MCUs
    have hload : ¬ s.g.loadingRows = true := by rw [hs.loading]; decide
    rw [if_neg hload] at hcall
    dsimp only at hcall
    rw [hdone, if_neg Bool.false_ne_true, hconsumed, if_neg Bool.false_ne_true, hout, hpos,
      hb.left] at hcall
    obtain ⟨q', m', hb', hwork⟩ := send_between hc hfit hb hb.run hb.phase rfl
      (Nat.le_refl u) hb.le (.inr hs.loading) hroom
    rw [hcall]
    exact ⟨⟨u, q', m', hb', hwork⟩, rfl⟩

/-! ## The whole job -/

/-- The largest sampling factors are not zero: the code divides by them. -/
def Config.Sampled (c : Config) : Prop := 0 < c.maxHorizSamFac ∧ 0 < c.maxVertSamFac

theorem complete_sound {g : Config} (hpix : 0 < g.pixelsInRow) (hfac : g.complete.Sampled) :
    g.complete.Sound := by
  obtain ⟨hhoriz, hvert⟩ := hfac
  have hrows : g.complete.rowsInMcu = g.complete.maxVertSamFac * 8 := rfl
  have hmcus : g.complete.mcusInRow
      = (g.pixelsInRow + g.complete.maxHorizSamFac * 8 - 1) / (g.complete.maxHorizSamFac * 8) := rfl
  have hcols : 0 < g.complete.maxHorizSamFac * 8 := Nat.mul_pos hhoriz (by decide)
  by_cases htakes : g.complete.TakesPixels
  · have hline : g.complete.rowsPerLine = 1 := if_pos htakes
    have hset : g.complete.linesPerSet = g.complete.maxVertSamFac * 8 := by
      rw [Config.linesPerSet, hline, hrows, Nat.div_one]
    exact ⟨hmcus ▸ Nat.div_pos (by lia) hcols, hline ▸ Nat.one_pos, by lia,
      by rw [hset, hline, hrows, Nat.mul_one]⟩
  · have hline : g.complete.rowsPerLine = g.complete.maxVertSamFac := if_neg htakes
    have hset : g.complete.linesPerSet = 8 := by
      rw [Config.linesPerSet, hline, hrows, Nat.mul_div_cancel_left 8 hvert]
    exact ⟨hmcus ▸ Nat.div_pos (by lia) hcols, hline ▸ hvert, by lia,
      by rw [hset, hline, hrows, Nat.mul_comm]⟩

variable (codeBlock) in
theorem first_between {g : JencInst} (hc : g.cfg.complete.Sound) (hdid : g.fDidHeader = false)
    (hreceived : g.rowsReceived = 0) (lines : List Bytes) (offers : Nat → Offer) :
    ∃ s, call codeBlock (⟨g, lines, []⟩, offers) = .inl (s, fun i => offers (i + 1))
      ∧ Between codeBlock g.cfg.complete lines g.rowsInPage (offers 0).2 0 0 0 s := by
  have hcoded : coded codeBlock g.cfg.complete lines 0 0 = (.init, []) := rfl
  refine ⟨⟨(initHeader g (offers 0).2).1, lines, firstBytes g.cfg.complete g.rowsInPage
    (offers 0).2⟩, ?_, ⟨⟨rfl, rfl, ?_, ?_, ?_, rfl⟩, .inl ⟨rfl, rfl, .inl ⟨?_, ?_⟩, ?_, ?_⟩,
    Nat.zero_le _, rfl, .inl rfl, ?_⟩⟩
  · rw [call, convert, if_pos hdid]
    dsimp only
    rw [initHeader]
    dsimp only
    rw [if_neg Bool.false_ne_true, if_neg Bool.false_ne_true]
    have hplace := place_end [] (firstBytes g.cfg.complete g.rowsInPage (offers 0).2)
    rw [List.length_nil, List.nil_append] at hplace
    rw [show (0 : UInt32).toNat = 0 from rfl, hplace]
  · rw [Nat.zero_mul]
    exact hreceived
  · rw [hcoded]
    rfl
  · rw [hcoded]
    rfl
  · rw [Nat.zero_mul]
  · rw [Nat.zero_mul, Nat.zero_add]
    exact hc.set
  · rw [Nat.zero_mul, Nat.sub_zero, Nat.zero_mul]
    exact Nat.zero_mod _
  · intro h
    exact absurd h (Nat.not_lt_zero _)
  · rw [hcoded]
    exact (List.append_nil _).symm

theorem run_final {g : JencInst} (hc : g.cfg.complete.Sound) (hdid : g.fDidHeader = false)
    (hreceived : g.rowsReceived = 0) (lines : List Bytes) {offers : Nat → Offer}
    (hroom : ∀ i, minOutBufLen ≤ (offers i).1.toNat)
    (hfit : Fits codeBlock g.cfg.complete lines g.rowsInPage (offers 0).2) :
    ∃ n file, rounds (call codeBlock) n (⟨g, lines, []⟩, offers) = .inr file
      ∧ Final codeBlock g.cfg.complete lines g.rowsInPage (offers 0).2 file := by
  obtain ⟨s, hcall, hb⟩ := first_between codeBlock hc hdid hreceived lines offers
  obtain ⟨n, file, hrun, hfinal⟩ := rounds_returns (call codeBlock)
    (fun w s => (∀ i, minOutBufLen ≤ (s.2 i).1.toNat) ∧ ∃ u q m,
      Between codeBlock g.cfg.complete lines g.rowsInPage (offers 0).2 u q m s.1
        ∧ w = work g.cfg.complete lines u q m s.1.g.rowsInPage)
    (Final codeBlock g.cfg.complete lines g.rowsInPage (offers 0).2)
    (by
      rintro w ⟨s, o⟩ ⟨ho, u, q, m, hb, rfl⟩
      have hstep := call_running hc hfit hb (ho 0)
      cases hs : call codeBlock (s, o) with
      | inl s' =>
        rw [hs] at hstep
        obtain ⟨⟨u', q', m', hb', hlt⟩, ho'⟩ := hstep
        refine ⟨_, hlt, ⟨fun i => ?_, u', q', m', hb', rfl⟩⟩
        rw [ho']
        exact ho (i + 1)
      | inr file =>
        rw [hs] at hstep
        exact hstep)
    _ (s, fun i => offers (i + 1)) ⟨fun i => hroom (i + 1), 0, 0, 0, hb, rfl⟩
  exact ⟨n + 1, file, by rw [rounds, hcall]; exact hrun, hfinal⟩

theorem final_complete_iff {c : Config} {lines : List Bytes} {declared : Int} {first : Bytes}
    {file : List UInt8} (h : Final codeBlock c lines declared first file) :
    CompleteFile codeBlock c first lines file ↔ c.dwDummyHeaderBytes ≠ 0
      ∨ (lines.length * c.rowsPerLine < 65536
        ∧ (declared < 0 ∨ ((lines.length * c.rowsPerLine : Nat) : Int) ≤ declared)) := by
  obtain ⟨page, hfile, hnot, hpage⟩ := h
  by_cases hdummy : c.dwDummyHeaderBytes = 0
  · have hheight : sofHeight file = some ((if page < 0 then 0 else page) % 65536).toNat := by
      rw [hfile, firstBytes, if_pos hdummy, List.append_assoc]
      exact sofHeight_outputHeader c page _
    have hcount : sofHeight file = some (lines.length * c.rowsPerLine)
        ↔ ((if page < 0 then 0 else page) % 65536).toNat = lines.length * c.rowsPerLine := by
      rw [hheight, Option.some.injEq]
    have hrange : 0 ≤ page ∧ page ≤ ((lines.length * c.rowsPerLine : Nat) : Int) := by
      by_contra hout
      refine hnot ⟨?_, hdummy⟩
      lia
    rw [if_neg (Int.not_lt.mpr hrange.1)] at hcount
    rw [or_iff_right (not_not.mpr hdummy)]
    constructor
    · intro hcomplete
      have heq := hcount.mp (hcomplete.height hdummy)
      rcases hpage with rfl | ⟨⟨hpend, -⟩, rfl⟩
      · exact ⟨by lia, .inr (by lia)⟩
      · exact ⟨by lia, hpend.imp_right Int.le_of_lt⟩
    · rintro ⟨hsmall, hdeclared⟩
      refine ⟨⟨page, hfile⟩, fun _ => hcount.mpr ?_⟩
      rcases hpage with rfl | ⟨-, rfl⟩
      · lia
      · lia
  · exact iff_of_true ⟨⟨page, hfile⟩, fun h => absurd h hdummy⟩ (.inl hdummy)

variable (codeBlock) in
theorem writesFile_iff_of_fits {g : JencInst} (hc : g.cfg.complete.Sound)
    (hdid : g.fDidHeader = false) (hreceived : g.rowsReceived = 0) (lines : List Bytes)
    {offers : Nat → Offer} (hroom : ∀ i, minOutBufLen ≤ (offers i).1.toNat)
    (hfit : Fits codeBlock g.cfg.complete lines g.rowsInPage (offers 0).2) :
    WritesFile codeBlock g lines offers ↔ g.cfg.dwDummyHeaderBytes ≠ 0
      ∨ (lines.length * g.cfg.complete.rowsPerLine < 65536
        ∧ (g.rowsInPage < 0
          ∨ ((lines.length * g.cfg.complete.rowsPerLine : Nat) : Int) ≤ g.rowsInPage)) := by
  obtain ⟨n, file, hrun, hfinal⟩ := run_final hc hdid hreceived lines hroom hfit
  have hiff := final_complete_iff hfinal
  constructor
  · rintro ⟨n', file', hrun', hcomplete⟩
    exact hiff.mp (rounds_unique hrun hrun' ▸ hcomplete)
  · intro h
    exact ⟨n, file, hrun, hiff.mpr h⟩

end Run

/-- An image that the encoder accepts, whatever is declared, supplied and offered. -/
theorem writesFile_iff
    (codeBlock : Bool → List UInt8 → Nat → List Int → Coder → Coder × List UInt8)
    (t : IpImageTraits) (x : XformSpec) (g : JencInst)
    (hg : setDefaultInputTraits openXform t = some g)
    (hfac : (setXformSpec g x).cfg.complete.Sampled) (lines : List Bytes) (offers : Nat → Offer)
    (hroom : ∀ i, minOutBufLen ≤ (offers i).1.toNat)
    (hfit : Fits codeBlock (setXformSpec g x).cfg.complete lines t.lNumRows (offers 0).2) :
    WritesFile codeBlock (setXformSpec g x) lines offers ↔ x.dummyHeaderLen ≠ 0
      ∨ (lines.length * (setXformSpec g x).cfg.complete.rowsPerLine < 65536
        ∧ (t.lNumRows < 0
          ∨ ((lines.length * (setXformSpec g x).cfg.complete.rowsPerLine : Nat) : Int)
            ≤ t.lNumRows)) := by
  rw [setDefaultInputTraits] at hg
  by_cases haccept : 0 < t.iPixelsPerRow
      ∧ (t.iComponentsPerPixel = 1 ∨ t.iComponentsPerPixel = 3)
  · rw [if_pos haccept, Option.some.injEq] at hg
    have hpix : 0 < (setXformSpec g x).cfg.pixelsInRow := by
      rw [← hg]
      show 0 < t.iPixelsPerRow.toNat
      omega
    have hpage : (setXformSpec g x).rowsInPage = t.lNumRows := by rw [← hg]; rfl
    have hdid : (setXformSpec g x).fDidHeader = false := by rw [← hg]; rfl
    have hreceived : (setXformSpec g x).rowsReceived = 0 := by rw [← hg]; rfl
    have hiff := writesFile_iff_of_fits codeBlock (complete_sound hpix hfac) hdid hreceived lines
      hroom (hpage ▸ hfit)
    rw [hpage] at hiff
    exact hiff
  · rw [if_neg haccept] at hg
    cases hg

/-- A grey image of one MCU in a row, `lNumRows` of its rows declared. -/
def narrowGrey (lNumRows : Int) : IpImageTraits where
  iPixelsPerRow := 8
  iBitsPerPixel := 8
  iComponentsPerPixel := 1
  lHorizDPI := 19660800
  lVertDPI := 19660800
  lNumRows := lNumRows
  iNumPages := 1
  iPageNum := 1

def plainSpec : XformSpec := ⟨0, 0, false, false, false, false, 0⟩

/-- White blocks of a grey image with the default quality: 12 bits for the first DC value, 2 for
one that has not changed, and 4 that end a block. They stay in the cache. -/
def codeWhite (_ : Bool) (_ : List UInt8) (_ : Nat) (_ : List Int) (c : Coder) :
    Coder × List UInt8 :=
  if c.priorDC.head? = some 64 then
    (⟨c.wrBitBuf ||| (0x0a <<< (c.wrBitsAvail - 6).toUInt32), c.wrBitsAvail - 6, c.priorDC⟩, [])
  else
    (⟨c.wrBitBuf ||| (0xf40a <<< (c.wrBitsAvail - 16).toUInt32), c.wrBitsAvail - 16,
      [64, 0, 0, 0]⟩, [])

def greyInst (lNumRows : Int) : JencInst :=
  setXformSpec ((setDefaultInputTraits openXform (narrowGrey lNumRows)).getD openXform) plainSpec

/-- Nine white rows of an unknown number, into buffers of the size that was asked for. -/
theorem writesFile_unknown_rows :
    WritesFile codeWhite (greyInst (-1)) (List.replicate 9 fun _ => 255)
      fun _ => (3648, fun _ => 0) :=
  (writesFile_iff codeWhite (narrowGrey (-1)) plainSpec _ rfl ⟨by decide, by decide⟩ _ _
    (fun _ => by decide) (by rw [Fits]; decide +kernel)).mpr (.inr ⟨by decide, .inl (by decide)⟩)

/-- Sixteen rows where eight were declared. -/
theorem not_writesFile_too_few_declared :
    ¬ WritesFile codeWhite (greyInst 8) (List.replicate 16 fun _ => 255)
      fun _ => (3648, fun _ => 0) := by
  have hroom : ∀ i, minOutBufLen ≤ ((fun _ => (3648, fun _ => 0) : Nat → Offer) i).1.toNat :=
    fun _ => (by decide : minOutBufLen ≤ (3648 : UInt32).toNat)
  have hiff := writesFile_iff_of_fits codeWhite (g := greyInst 8)
    (complete_sound (by decide) ⟨by decide, by decide⟩) rfl rfl
    (List.replicate 16 fun _ => 255) hroom (by rw [Fits]; decide +kernel)
  intro hwrites
  rcases hiff.mp hwrites with h | ⟨-, h | h⟩
  · exact h rfl
  · exact absurd h (by decide)
  · exact absurd h (by decide)

end Hplip.Ip.JpegEnc
