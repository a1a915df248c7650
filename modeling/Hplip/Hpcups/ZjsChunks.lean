import Mathlib
import Hplip.Hpcups.Encapsulator
import Hplip.Hpcups.LJZjStream
import Hplip.Lib.CommandStream
import Hplip.Lib.Loop

/-!
# The chunks of a ZJStream (LJZjStream.cpp, Utils.cpp)

A chunk is a header of sixteen bytes with the length of the whole, its type and
the number of its items, then the items, then a payload. JBIG data goes out as
JBIG_HID chunks of 65536 bytes; the last one holds the rest and a padding. The
monochrome and the colour path split the data each in their own way, and compute
the length in a header apart from what they send behind it.
-/

namespace Hplip.Hpcups.Zjs

open Loop CommandStream Encapsulator DriverError

open LJZjStream (highFirst)

/-! ## Writing -/

inductive ChunkType
  | startDoc
  | endDoc
  | startPage
  | endPage
  | jbigBih
  | jbigHid
  | endJbig
  | signature
  | rawImage
  | startPlane
  | endPlane
  | pause
  | bitmap
  deriving DecidableEq, Repr

def ChunkType.code : ChunkType → Nat
  | startDoc => 0
  | endDoc => 1
  | startPage => 2
  | endPage => 3
  | jbigBih => 4
  | jbigHid => 5
  | endJbig => 6
  | signature => 7
  | rawImage => 8
  | startPlane => 9
  | endPlane => 10
  | pause => 11
  | bitmap => 12

def highFirst16 (n : Nat) : List UInt8 := [(n / 2 ^ 8).toUInt8, n.toUInt8]

def sendChunkHeader (dwSize : Nat) (dwChunkType : ChunkType) (dwNumItems : Nat) : List UInt8 :=
  highFirst dwSize ++ highFirst dwChunkType.code ++ highFirst dwNumItems ++
    highFirst16 (dwNumItems * 12) ++ [0x5A, 0x5A]

def sendItem (cType : UInt8) (wItem dwValue : Nat) : List UInt8 :=
  highFirst 12 ++ highFirst16 wItem ++ [cType, 0] ++ highFirst dwValue

/-- `ZJI_PLANE`, of type `ZJIT_UINT32`. -/
def planeItem (plane : Nat) : List UInt8 := sendItem 1 0x14 plane

/-! ## The monochrome path -/

/-- The locals of the loop over full chunks: what is left from `p` on, and the
pieces handed to `sendBuffer`. -/
structure Rest where
  p : Nat
  dwTotal : Nat
  out : List (List UInt8)

def fullChunk (data : Mem) (s : Rest) : Rest :=
  ⟨s.p + 65536, s.dwTotal - 65536,
    s.out ++ [sendChunkHeader (16 + 65536) .jbigHid 0, slice data s.p 65536]⟩

/-- `iPadCount`: what is missing to a multiple of `k`. -/
def padCount (k total : Nat) : Nat :=
  if total % k ≠ 0 then (total / k + 1) * k - total else 0

def monoPieces (data : Mem) (size : Nat) : List (List UInt8) :=
  let iTotalSize := size - 20
  let s := (fullChunk data)^[iTotalSize / 65536] ⟨20, iTotalSize, []⟩
  [sendChunkHeader 36 .jbigBih 0 ++ slice data 0 20] ++ s.out ++
    [sendChunkHeader (16 + s.dwTotal + padCount 16 iTotalSize) .jbigHid 0,
      slice data s.p s.dwTotal]

variable (device : Device)

/-- `err = sendBuffer (..); ERRCHECK;` for one piece after another. -/
def sendBuffers : List (List UInt8) → State → DriverError × State
  | [], s => (noError, s)
  | buf :: bufs, s =>
    let (err, s) := sendBuffer device s buf
    if err ≠ noError then (err, s) else sendBuffers bufs s

/-- `LJZjStream::Encapsulate`, on a platform other than `ljzjscolor`. -/
def encapsulate (s : State) (raster : RasterData) : DriverError × State :=
  match raster.rasterdata .color with
  | none => (noError, s)
  | some data =>
    let size := raster.rastersize .color
    if size = 0 then (noError, s)
    else
      let (err, s) := sendBuffers device (monoPieces data size) s
      if err ≠ noError then (err, s)
      else
        let iPadCount := padCount 16 (size - 20)
        let (err, s) := if iPadCount ≠ 0 then sendBuffer device s (List.replicate iPadCount 0)
          else (err, s)
        let (_, s) := if err = noError then sendBuffer device s (sendChunkHeader 16 .endJbig 0)
          else (err, s)
        -- the result so far is overwritten
        cleanup device s

/-! ## The colour path -/

structure Split where
  dwLoopCount : Nat
  p : Nat
  bLastChunk : Bool
  out : List (List UInt8)

def splitStep (data : Mem) (dwTotalSize iPadCount : Nat) (s : Split) : Split :=
  let past := s.dwLoopCount + 0x10000 > dwTotalSize
  let dwCurrentChunkSize := if past then dwTotalSize - s.dwLoopCount else 0x10000
  let bLastChunk := s.bLastChunk || decide past
  { dwLoopCount := s.dwLoopCount + 0x10000
    p := s.p + dwCurrentChunkSize
    bLastChunk := bLastChunk
    out := s.out ++
      [sendChunkHeader (if bLastChunk then dwCurrentChunkSize + 16 + iPadCount
          else dwCurrentChunkSize + 16) .jbigHid 0, slice data s.p dwCurrentChunkSize] }

/-- `plane[m_iPlaneNumber]`. -/
def planeOf : Fin 4 → Nat
  | 0 => 3
  | 1 => 2
  | 2 => 1
  | 3 => 4

/-- The pieces handed to `Send`. -/
def colorPieces (colorMode : Int) (iPlaneNumber : Fin 4) (data : Mem) (size : Nat) :
    Option (List (List UInt8)) := do
  let dwTotalSize := size - 20
  let iPadCount := padCount 4 dwTotalSize
  let s ← whileDo (fun s : Split => s.dwLoopCount < dwTotalSize)
    (splitStep data dwTotalSize iPadCount) (dwTotalSize + 1) ⟨0, 20, false, []⟩
  some (
    (if colorMode = 0 then [sendChunkHeader 28 .startPlane 1 ++ planeItem (planeOf iPlaneNumber)]
      else []) ++
    [sendChunkHeader 36 .jbigBih 0, slice data 0 20] ++ s.out ++
    (if iPadCount ≠ 0 then [List.replicate iPadCount 0] else []) ++
    [sendChunkHeader 16 .endJbig 0 ++
      if colorMode = 0 then sendChunkHeader 28 .endPlane 1 ++ planeItem (planeOf iPlaneNumber)
      else []])

/-- `err = Send (..);` for one piece after another, whatever the results. -/
def sendAll (pieces : List (List UInt8)) (s : State) : DriverError × State :=
  pieces.foldl (fun r buf => send device r.2 buf) (noError, s)

theorem nextPlane_lt (k : Fin 4) : (k.val + 1) % 4 < 4 := Nat.mod_lt _ (by decide)

/-- `LJZjStream::encapsulateColor2`, with the plane that comes next. -/
def encapsulateColor2 (colorMode : Int) (s : State) (iPlaneNumber : Fin 4) (data : Mem)
    (size : Nat) : Option (DriverError × State × Fin 4) := do
  let pieces ← colorPieces colorMode iPlaneNumber data size
  let (err, s) := sendAll device pieces s
  some (err, s, if colorMode = 0 then ⟨(iPlaneNumber.val + 1) % 4, nextPlane_lt iPlaneNumber⟩
    else iPlaneNumber)

/-! ## Reading -/

def number (bytes : List UInt8) : Nat := bytes.foldl (fun n b => n * 256 + b.toNat) 0

structure Item where
  item : Nat
  type : UInt8
  value : Nat
  deriving DecidableEq, Repr

structure Chunk where
  type : ChunkType
  items : List Item
  payload : List UInt8
  deriving DecidableEq, Repr

def ChunkType.ofCode (n : Nat) : Option ChunkType :=
  [startDoc, endDoc, startPage, endPage, jbigBih, jbigHid, endJbig, signature, rawImage,
    startPlane, endPlane, pause, bitmap][n]?

def readItems : Nat → List UInt8 → Option (List Item)
  | 0, bytes => if bytes = [] then some [] else none
  | n + 1, bytes => do
    check (12 ≤ bytes.length ∧ number (bytes.take 4) = 12)
    let items ← readItems n (bytes.drop 12)
    some (⟨number ((bytes.drop 4).take 2), (bytes.drop 6).headD 0,
      number ((bytes.drop 8).take 4)⟩ :: items)

/-- A chunk at the front of a stream: its length counts the header, the items
and the payload, and the stream has that many bytes. -/
def readChunk (bytes : List UInt8) : Option (Chunk × List UInt8) := do
  check (16 ≤ bytes.length)
  let length := number (bytes.take 4)
  let type ← ChunkType.ofCode (number ((bytes.drop 4).take 4))
  let itemBytes := number ((bytes.drop 12).take 2)
  check ((bytes.drop 14).take 2 = [0x5A, 0x5A])
  check (16 + itemBytes ≤ length ∧ length ≤ bytes.length)
  let items ← readItems (number ((bytes.drop 8).take 4)) ((bytes.drop 16).take itemBytes)
  some (⟨type, items, (bytes.take length).drop (16 + itemBytes)⟩, bytes.drop length)

def readStep : Step (List Chunk) UInt8 := fun chunks bytes => do
  let (chunk, bytes) ← readChunk bytes
  some (chunks ++ [chunk], bytes)

def readStream (bytes : List UInt8) : Option (List Chunk) :=
  decode readStep bytes.length [] bytes

def hidPayload (chunks : List Chunk) : List UInt8 :=
  chunks.flatMap fun c => if c.type = .jbigHid then c.payload else []

/-! ## Chunks and their bytes -/

def Item.bytes (i : Item) : List UInt8 := sendItem i.type i.item i.value

/-- The bytes of a chunk, with the length and the count that its header should have. -/
def Chunk.bytes (c : Chunk) : List UInt8 :=
  sendChunkHeader (16 + c.items.length * 12 + c.payload.length) c.type c.items.length ++
    (c.items.flatMap Item.bytes ++ c.payload)

/-- The fields of a header have room for the chunk. -/
structure Chunk.Fits (c : Chunk) : Prop where
  size : 16 + c.items.length * 12 + c.payload.length < 2 ^ 32
  items : c.items.length * 12 < 2 ^ 16
  values : ∀ i ∈ c.items, i.item < 2 ^ 16 ∧ i.value < 2 ^ 32

theorem number_highFirst {n : Nat} (h : n < 2 ^ 32) : number (highFirst n) = n := by
  unfold number highFirst
  simp only [List.foldl_cons, List.foldl_nil, Nat.toUInt8, UInt8.toNat_ofNat']
  lia

theorem number_highFirst16 {n : Nat} (h : n < 2 ^ 16) : number (highFirst16 n) = n := by
  unfold number highFirst16
  simp only [List.foldl_cons, List.foldl_nil, Nat.toUInt8, UInt8.toNat_ofNat']
  lia

theorem ChunkType.code_lt (t : ChunkType) : t.code < 2 ^ 32 := by
  cases t <;> decide

theorem ChunkType.ofCode_code (t : ChunkType) : ofCode t.code = some t := by
  cases t <;> rfl

theorem Item.bytes_length (i : Item) : i.bytes.length = 12 := rfl

theorem items_length (items : List Item) : (items.flatMap Item.bytes).length
    = items.length * 12 := by
  induction items with
  | nil => rfl
  | cons i items ih =>
    rw [List.flatMap_cons, List.length_append, ih, Item.bytes_length, List.length_cons]
    lia

theorem readItems_bytes (items : List Item)
    (h : ∀ i ∈ items, i.item < 2 ^ 16 ∧ i.value < 2 ^ 32) :
    readItems items.length (items.flatMap Item.bytes) = some items := by
  induction items with
  | nil => rfl
  | cons i items ih =>
    obtain ⟨⟨hitem, hvalue⟩, hrest⟩ := List.forall_mem_cons.mp h
    have hlength : number (highFirst 12) = 12 := number_highFirst (by decide)
    have hroom : 12 ≤ (i.bytes ++ items.flatMap Item.bytes).length := by
      rw [List.length_append, Item.bytes_length]
      omega
    rw [List.flatMap_cons, List.length_cons, readItems, check_pos ⟨hroom, hlength⟩]
    show (readItems items.length (items.flatMap Item.bytes) >>= fun rest =>
      some (⟨number (highFirst16 i.item), i.type, number (highFirst i.value)⟩ :: rest)) = _
    rw [ih hrest, number_highFirst16 hitem, number_highFirst hvalue]
    rfl

/-- **A chunk is read back**, whatever follows it. -/
theorem readChunk_bytes {c : Chunk} (h : c.Fits) (rest : List UInt8) :
    readChunk (c.bytes ++ rest) = some (c, rest) := by
  obtain ⟨hsize, hitems, hvalues⟩ := h
  have hcount : c.items.length < 2 ^ 32 := by lia
  have hbytes : c.bytes.length = 16 + c.items.length * 12 + c.payload.length := by
    rw [Chunk.bytes, List.length_append, List.length_append, items_length]
    show 16 + _ = _
    lia
  have hlength : number ((c.bytes ++ rest).take 4)
      = 16 + c.items.length * 12 + c.payload.length := number_highFirst hsize
  have htype : number (((c.bytes ++ rest).drop 4).take 4) = c.type.code :=
    number_highFirst c.type.code_lt
  have hnumber : number (((c.bytes ++ rest).drop 8).take 4) = c.items.length :=
    number_highFirst hcount
  have hitemBytes : number (((c.bytes ++ rest).drop 12).take 2) = c.items.length * 12 :=
    number_highFirst16 hitems
  have hbody : (c.bytes ++ rest).drop 16 = c.items.flatMap Item.bytes ++ c.payload ++ rest := rfl
  have hroom : 16 ≤ (c.bytes ++ rest).length := by
    rw [List.length_append, hbytes]
    lia
  unfold readChunk
  rw [check_pos hroom, hlength, htype, hnumber, hitemBytes, ChunkType.ofCode_code]
  simp only [Option.bind_eq_bind, Option.bind_some]
  rw [check_pos (show ((c.bytes ++ rest).drop 14).take 2 = [0x5A, 0x5A] from rfl),
    check_pos (by rw [List.length_append, hbytes]; lia)]
  simp only [Option.bind_some]
  rw [hbody, List.append_assoc, List.take_left' (items_length _), readItems_bytes _ hvalues,
    List.take_left' hbytes, List.drop_left' hbytes, ← List.drop_drop]
  show some (Chunk.mk c.type c.items
    ((c.items.flatMap Item.bytes ++ c.payload).drop (c.items.length * 12)), rest) = _
  rw [List.drop_left' (items_length _)]

theorem takes_chunks {chunks : List Chunk} (h : ∀ c ∈ chunks, c.Fits) (before : List Chunk) :
    Takes readStep before (chunks.flatMap Chunk.bytes) (before ++ chunks) := by
  induction chunks generalizing before with
  | nil =>
    rw [List.append_nil]
    exact .nil before
  | cons c chunks ih =>
    obtain ⟨hc, hrest⟩ := List.forall_mem_cons.mp h
    have hrest := ih hrest (before ++ [c])
    rw [List.append_assoc] at hrest
    refine .cons (List.cons_ne_nil _ _) (fun rest => ?_) hrest
    rw [readStep, readChunk_bytes hc]
    rfl

theorem readStream_chunks {chunks : List Chunk} (h : ∀ c ∈ chunks, c.Fits) :
    readStream (chunks.flatMap Chunk.bytes) = some chunks :=
  (takes_chunks h []).decode_eq (Nat.le_refl _)

/-! ## The chunks of the two paths -/

/-- A stream is complete chunks, and its JBIG_HID chunks carry the data behind
the twenty bytes of the BIH with zeros up to a multiple of `k`. -/
def Framed (k : Nat) (data : Mem) (size : Nat) (stream : List UInt8) : Prop :=
  ∃ chunks pad, readStream stream = some chunks ∧ stream = chunks.flatMap Chunk.bytes ∧
    pad < k ∧ (size - 20 + pad) % k = 0 ∧
    hidPayload chunks = slice data 20 (size - 20) ++ List.replicate pad 0

theorem padCount_lt {k : Nat} (total : Nat) (hk : 0 < k) : padCount k total < k := by
  unfold padCount
  split
  · have hdiv := Nat.div_add_mod total k
    have hmod := Nat.mod_lt total hk
    rw [Nat.add_mul, Nat.one_mul, Nat.mul_comm]
    lia
  · exact hk

theorem padCount_mod {k : Nat} (total : Nat) (hk : 0 < k) :
    (total + padCount k total) % k = 0 := by
  unfold padCount
  split
  · have hdiv := Nat.div_add_mod total k
    have hmod := Nat.mod_lt total hk
    have hle : total ≤ (total / k + 1) * k := by
      rw [Nat.add_mul, Nat.one_mul, Nat.mul_comm]
      lia
    rw [Nat.add_sub_cancel' hle]
    exact Nat.mul_mod_left _ _
  · rw [Nat.add_zero]
    lia

def plain (type : ChunkType) (payload : List UInt8) : Chunk := ⟨type, [], payload⟩

theorem plain_bytes (type : ChunkType) (payload : List UInt8) : (plain type payload).bytes
    = sendChunkHeader (16 + payload.length) type 0 ++ payload := by
  unfold Chunk.bytes plain
  simp

theorem plain_fits {type : ChunkType} {payload : List UInt8} (h : payload.length < 2 ^ 31) :
    (plain type payload).Fits := by
  refine ⟨?_, ?_, fun i hi => absurd hi List.not_mem_nil⟩
  · show 16 + 0 * 12 + payload.length < 2 ^ 32
    omega
  · show 0 * 12 < 2 ^ 16
    decide

def planeChunk (type : ChunkType) (plane : Nat) : Chunk := ⟨type, [⟨0x14, 1, plane⟩], []⟩

theorem planeChunk_bytes (type : ChunkType) (plane : Nat) : (planeChunk type plane).bytes
    = sendChunkHeader 28 type 1 ++ planeItem plane := by
  unfold Chunk.bytes planeChunk
  simp [Item.bytes, planeItem]

theorem planeOf_le : ∀ i : Fin 4, planeOf i ≤ 4 := by decide

theorem planeChunk_fits (type : ChunkType) (iPlaneNumber : Fin 4) :
    (planeChunk type (planeOf iPlaneNumber)).Fits := by
  have hplane := planeOf_le iPlaneNumber
  refine ⟨by show 16 + 1 * 12 + 0 < 2 ^ 32; decide, by show 1 * 12 < 2 ^ 16; decide,
    List.forall_mem_singleton.mpr ⟨by show 0x14 < 2 ^ 16; decide, ?_⟩⟩
  show planeOf iPlaneNumber < 2 ^ 32
  omega

/-- The first `n` full chunks. -/
def fullChunks (data : Mem) (n : Nat) : List Chunk :=
  (List.range n).map fun j => plain .jbigHid (slice data (20 + 65536 * j) 65536)

theorem fullChunks_succ (data : Mem) (n : Nat) : fullChunks data (n + 1)
    = fullChunks data n ++ [plain .jbigHid (slice data (20 + 65536 * n) 65536)] := by
  unfold fullChunks
  rw [List.range_succ, List.map_append]
  rfl

theorem hidPayload_append (cs cs' : List Chunk) :
    hidPayload (cs ++ cs') = hidPayload cs ++ hidPayload cs' := List.flatMap_append

theorem hidPayload_hid (payload : List UInt8) :
    hidPayload [plain .jbigHid payload] = payload := List.append_nil payload

theorem hidPayload_fullChunks (data : Mem) (n : Nat) :
    hidPayload (fullChunks data n) = slice data 20 (65536 * n) := by
  induction n with
  | zero => rfl
  | succ n ih =>
    rw [fullChunks_succ, hidPayload_append, ih, hidPayload_hid, Nat.mul_succ, slice_add]

theorem fullChunks_fit (data : Mem) (n : Nat) : ∀ c ∈ fullChunks data n, c.Fits := by
  intro c hc
  obtain ⟨j, -, rfl⟩ := List.mem_map.mp hc
  refine plain_fits ?_
  rw [slice_length]
  decide

/-- The chunk that holds the `left` bytes from offset `p` on, and the padding. -/
def lastChunk (data : Mem) (p left pad : Nat) : Chunk :=
  plain .jbigHid (slice data p left ++ List.replicate pad 0)

theorem lastChunk_length (data : Mem) (p left pad : Nat) :
    (slice data p left ++ List.replicate pad (0 : UInt8)).length = left + pad := by
  rw [List.length_append, slice_length, List.length_replicate]

theorem lastChunk_fits (data : Mem) {p left pad : Nat} (h : left + pad < 2 ^ 31) :
    (lastChunk data p left pad).Fits := by
  refine plain_fits ?_
  rwa [lastChunk_length]

theorem lastChunk_bytes (data : Mem) (p left pad : Nat) : (lastChunk data p left pad).bytes
    = sendChunkHeader (16 + left + pad) .jbigHid 0 ++ slice data p left
      ++ List.replicate pad 0 := by
  rw [lastChunk, plain_bytes, lastChunk_length, Nat.add_assoc, List.append_assoc]

theorem framed_of_chunks {k size pad : Nat} {data : Mem} {chunks : List Chunk}
    (hfits : ∀ c ∈ chunks, c.Fits) (hpad : pad < k) (hmod : (size - 20 + pad) % k = 0)
    (hdata : hidPayload chunks = slice data 20 (size - 20) ++ List.replicate pad 0) :
    Framed k data size (chunks.flatMap Chunk.bytes) :=
  ⟨chunks, pad, readStream_chunks hfits, rfl, hpad, hmod, hdata⟩

/-! ### Monochrome -/

theorem fullChunk_iterate (data : Mem) (total n : Nat) :
    ∃ out, (fullChunk data)^[n] ⟨20, total, []⟩ = ⟨20 + 65536 * n, total - 65536 * n, out⟩ ∧
      out.flatten = (fullChunks data n).flatMap Chunk.bytes := by
  induction n with
  | zero => exact ⟨[], rfl, rfl⟩
  | succ n ih =>
    obtain ⟨out, hout, hflat⟩ := ih
    refine ⟨_, by rw [Function.iterate_succ_apply', hout, fullChunk, Nat.add_assoc,
      ← Nat.mul_succ, Nat.sub_sub, ← Nat.mul_succ], ?_⟩
    rw [List.flatten_append, hflat, fullChunks_succ, List.flatMap_append]
    show _ ++ (sendChunkHeader (16 + 65536) .jbigHid 0 ++ (slice data (20 + 65536 * n) 65536 ++ []))
      = _ ++ ((plain .jbigHid (slice data (20 + 65536 * n) 65536)).bytes ++ [])
    rw [plain_bytes, slice_length, List.append_nil, List.append_nil]

def monoChunks (data : Mem) (size : Nat) : List Chunk :=
  [plain .jbigBih (slice data 0 20)] ++ fullChunks data ((size - 20) / 65536) ++
    [lastChunk data (20 + 65536 * ((size - 20) / 65536))
      (size - 20 - 65536 * ((size - 20) / 65536)) (padCount 16 (size - 20)), plain .endJbig []]

theorem monoPieces_flatten (data : Mem) (size : Nat) :
    (monoPieces data size).flatten ++ List.replicate (padCount 16 (size - 20)) 0
      ++ sendChunkHeader 16 .endJbig 0 = (monoChunks data size).flatMap Chunk.bytes := by
  obtain ⟨out, hout, hflat⟩ := fullChunk_iterate data (size - 20) ((size - 20) / 65536)
  unfold monoPieces monoChunks
  dsimp only
  rw [hout]
  simp only [List.flatten_append, List.flatMap_append, List.flatten_cons, List.flatten_nil,
    List.flatMap_cons, List.flatMap_nil, hflat, plain_bytes, lastChunk_bytes, slice_length,
    List.append_nil, List.append_assoc, List.length_nil, Nat.add_zero]

theorem monoChunks_framed (data : Mem) (size : Nat) :
    Framed 16 data size ((monoChunks data size).flatMap Chunk.bytes) := by
  have hpad := padCount_lt (size - 20) (show 0 < 16 by decide)
  have hdiv := Nat.div_add_mod (size - 20) 65536
  have hmod := Nat.mod_lt (size - 20) (show 0 < 65536 by decide)
  refine framed_of_chunks ?_ hpad (padCount_mod _ (by decide)) ?_
  · intro c hc
    rcases List.mem_append.mp hc with hc | hc
    · rcases List.mem_append.mp hc with hc | hc
      · rw [List.mem_singleton.mp hc]
        exact plain_fits (by rw [slice_length]; decide)
      · exact fullChunks_fit data _ c hc
    · rcases List.mem_cons.mp hc with rfl | hc
      · exact lastChunk_fits data (by lia)
      · rw [List.mem_singleton.mp hc]
        exact plain_fits (by decide)
  · rw [monoChunks, hidPayload_append, hidPayload_append, hidPayload_fullChunks]
    show [] ++ slice data 20 _ ++ (slice data _ _ ++ List.replicate _ 0 ++ []) = _
    rw [List.nil_append, List.append_nil, ← List.append_assoc, ← slice_add,
      Nat.add_sub_cancel' (by lia)]

/-! ### Colour -/

/-- What the loop over the data has sent: full chunks, or all of them and the
rest behind a header that counts the padding. -/
def SplitAt (data : Mem) (total pad : Nat) (s : Split) : Prop :=
  (∃ j ≤ total / 65536, s.dwLoopCount = 65536 * j ∧ s.p = 20 + 65536 * j ∧
    s.bLastChunk = false ∧ s.out.flatten = (fullChunks data j).flatMap Chunk.bytes) ∨
  (total % 65536 ≠ 0 ∧ s.dwLoopCount = 65536 * (total / 65536 + 1) ∧
    s.out.flatten = (fullChunks data (total / 65536)).flatMap Chunk.bytes ++
      (sendChunkHeader (16 + total % 65536 + pad) .jbigHid 0 ++
        slice data (20 + 65536 * (total / 65536)) (total % 65536)))

theorem SplitAt.step {data : Mem} {total pad : Nat} {s : Split} (h : SplitAt data total pad s)
    (hlt : s.dwLoopCount < total) : SplitAt data total pad (splitStep data total pad s) := by
  have hdiv := Nat.div_add_mod total 65536
  have hmod := Nat.mod_lt total (show 0 < 65536 by decide)
  rcases h with ⟨j, hj, hcount, hp, hlast, hflat⟩ | ⟨-, hcount, -⟩
  swap
  · lia
  by_cases hpast : s.dwLoopCount + 0x10000 > total
  · -- less than a full chunk is left
    obtain rfl : j = total / 65536 := by lia
    have hleft : total - s.dwLoopCount = total % 65536 := by lia
    refine .inr ⟨by lia, ?_, ?_⟩
    · show s.dwLoopCount + 0x10000 = _
      lia
    · unfold splitStep
      simp only [hpast, if_true, decide_true, Bool.or_true, List.flatten_append, hflat, hleft, hp]
      rw [Nat.add_comm (total % 65536) 16]
      show _ ++ (_ ++ (_ ++ [])) = _
      rw [List.append_nil]
  · refine .inl ⟨j + 1, by lia, ?_, ?_, ?_, ?_⟩
    · show s.dwLoopCount + 0x10000 = _
      lia
    · show s.p + (if s.dwLoopCount + 0x10000 > total then _ else 0x10000) = _
      rw [if_neg hpast, hp]
      lia
    · show (s.bLastChunk || decide (s.dwLoopCount + 0x10000 > total)) = false
      rw [hlast, decide_eq_false hpast]
      rfl
    · unfold splitStep
      simp only [hpast, if_false, decide_false, Bool.or_false, hlast, List.flatten_append, hflat,
        hp, fullChunks_succ, List.flatMap_append]
      show _ ++ (sendChunkHeader (65536 + 16) .jbigHid 0 ++ (slice data _ 65536 ++ []))
        = _ ++ ((plain .jbigHid (slice data _ 65536)).bytes ++ [])
      rw [plain_bytes, slice_length, List.append_nil, List.append_nil]

def splitChunks (data : Mem) (total pad : Nat) : List Chunk :=
  fullChunks data (total / 65536) ++
    if total % 65536 = 0 then []
    else [lastChunk data (20 + 65536 * (total / 65536)) (total % 65536) pad]

theorem split_spec (data : Mem) (total : Nat) :
    Returns (whileDo (fun s : Split => s.dwLoopCount < total)
      (splitStep data total (padCount 4 total)) (total + 1) ⟨0, 20, false, []⟩) fun s =>
      s.out.flatten ++ List.replicate (padCount 4 total) 0
        = (splitChunks data total (padCount 4 total)).flatMap Chunk.bytes := by
  have hdiv := Nat.div_add_mod total 65536
  refine (Returns.whileDo (SplitAt data total (padCount 4 total))
    (fun s : Split => total - s.dwLoopCount) (fun s hs hlt => ⟨hs.step hlt, ?_⟩) _ _
    (.inl ⟨0, Nat.zero_le _, rfl, rfl, rfl, rfl⟩) (Nat.lt_succ_of_le (Nat.sub_le _ _))).mono ?_
  · have hlt : s.dwLoopCount < total := hlt
    show total - (s.dwLoopCount + 0x10000) < total - s.dwLoopCount
    lia
  · rintro s ⟨hs, hend⟩
    unfold splitChunks
    rcases hs with ⟨j, hj, hcount, -, -, hflat⟩ | ⟨hrest, -, hflat⟩
    · -- the data is full chunks only
      have hzero : total % 65536 = 0 := by lia
      obtain rfl : j = total / 65536 := by lia
      have hpad : padCount 4 total = 0 := if_neg (by lia)
      rw [hpad, if_pos hzero, hflat, List.append_nil]
      exact List.append_nil _
    · rw [if_neg hrest, hflat, List.flatMap_append]
      show _ = _ ++ ((lastChunk data _ _ _).bytes ++ [])
      rw [lastChunk_bytes, List.append_nil, List.append_assoc, List.append_assoc]

def colorChunks (colorMode : Int) (iPlaneNumber : Fin 4) (data : Mem) (size : Nat) : List Chunk :=
  (if colorMode = 0 then [planeChunk .startPlane (planeOf iPlaneNumber)] else []) ++
    [plain .jbigBih (slice data 0 20)] ++
    splitChunks data (size - 20) (padCount 4 (size - 20)) ++ [plain .endJbig []] ++
    if colorMode = 0 then [planeChunk .endPlane (planeOf iPlaneNumber)] else []

theorem colorPieces_flatten (colorMode : Int) (iPlaneNumber : Fin 4) (data : Mem) (size : Nat) :
    Returns (colorPieces colorMode iPlaneNumber data size) fun pieces =>
      pieces.flatten = (colorChunks colorMode iPlaneNumber data size).flatMap Chunk.bytes := by
  unfold colorPieces
  refine Returns.bind (split_spec data (size - 20)) ?_
  intro s hs
  refine Returns.pure ?_
  have hpad : (if padCount 4 (size - 20) ≠ 0 then
      [List.replicate (padCount 4 (size - 20)) (0 : UInt8)] else []).flatten
        = List.replicate (padCount 4 (size - 20)) 0 := by
    split
    · exact List.append_nil _
    · rename_i hzero
      rw [not_not.mp hzero]
      rfl
  have hbih : (plain .jbigBih (slice data 0 20)).bytes
      = sendChunkHeader 36 .jbigBih 0 ++ slice data 0 20 := by
    rw [plain_bytes, slice_length]
  have hend : (plain .endJbig []).bytes = sendChunkHeader 16 .endJbig 0 := by
    rw [plain_bytes]
    exact List.append_nil _
  unfold colorChunks
  by_cases hmode : colorMode = 0
  · simp only [if_pos hmode, List.flatten_append, List.flatMap_append, List.flatten_cons,
      List.flatten_nil, List.flatMap_cons, List.flatMap_nil, hpad, ← hs, hbih, hend,
      planeChunk_bytes, List.append_nil, List.append_assoc]
  · simp only [if_neg hmode, List.flatten_append, List.flatMap_append, List.flatten_cons,
      List.flatten_nil, List.flatMap_cons, List.flatMap_nil, hpad, ← hs, hbih, hend,
      List.append_nil, List.nil_append, List.append_assoc]

theorem hidPayload_splitChunks (data : Mem) (total : Nat) :
    hidPayload (splitChunks data total (padCount 4 total))
      = slice data 20 total ++ List.replicate (padCount 4 total) 0 := by
  have hdiv := Nat.div_add_mod total 65536
  rw [splitChunks, hidPayload_append, hidPayload_fullChunks]
  by_cases hzero : total % 65536 = 0
  · have hpad : padCount 4 total = 0 := if_neg (by lia)
    have htotal : 65536 * (total / 65536) = total := by lia
    rw [if_pos hzero, hpad, htotal]
    rfl
  · rw [if_neg hzero, lastChunk, hidPayload_hid, ← List.append_assoc, ← slice_add, hdiv]

theorem colorChunks_framed (colorMode : Int) (iPlaneNumber : Fin 4) (data : Mem) (size : Nat) :
    Framed 4 data size ((colorChunks colorMode iPlaneNumber data size).flatMap Chunk.bytes) := by
  have hpad := padCount_lt (size - 20) (show 0 < 4 by decide)
  have hmod := Nat.mod_lt (size - 20) (show 0 < 65536 by decide)
  have hplane : ∀ type, ∀ c ∈ (if colorMode = 0 then
      [planeChunk type (planeOf iPlaneNumber)] else []),
      c.Fits ∧ c.type = type := by
    intro type c hc
    split at hc
    · rw [List.mem_singleton.mp hc]
      exact ⟨planeChunk_fits type iPlaneNumber, rfl⟩
    · cases hc
  refine framed_of_chunks ?_ hpad (padCount_mod _ (by decide)) ?_
  · intro c hc
    unfold colorChunks splitChunks at hc
    simp only [List.mem_append, List.mem_singleton] at hc
    rcases hc with (((hc | rfl) | hc | hc) | rfl) | hc
    · exact (hplane _ c hc).1
    · exact plain_fits (by rw [slice_length]; decide)
    · exact fullChunks_fit data _ c hc
    · split at hc
      · cases hc
      · rw [List.mem_singleton.mp hc]
        exact lastChunk_fits data (by lia)
    · exact plain_fits (by decide)
    · exact (hplane _ c hc).1
  · -- only the data chunks are JBIG_HID
    have hnone : ∀ type, type ≠ .jbigHid → hidPayload (if colorMode = 0 then
        [planeChunk type (planeOf iPlaneNumber)] else []) = [] := by
      intro type htype
      refine List.flatMap_eq_nil_iff.mpr fun c hc => if_neg ?_
      rw [(hplane type c hc).2]
      exact htype
    unfold colorChunks
    rw [hidPayload_append, hidPayload_append, hidPayload_append, hidPayload_append,
      hnone _ (by decide), hnone _ (by decide), hidPayload_splitChunks]
    show [] ++ [] ++ _ ++ [] ++ [] = _
    rw [List.nil_append, List.nil_append, List.append_nil, List.append_nil]

/-! ## Sending -/

section Sending

variable {device : Device} (haccept : ∀ sent buf, device sent buf = noError)

include haccept

theorem sendBuffer_accepts (s : State) (buf : List UInt8) :
    (sendBuffer device s buf).1 = noError ∧
      accepted (sendBuffer device s buf).2.sent = accepted s.sent ++ buf ∧
      (sendBuffer device s buf).2.pending = s.pending := by
  cases buf with
  | nil => exact ⟨rfl, (List.append_nil _).symm, rfl⟩
  | cons b bs =>
    rw [sendBuffer_eq s (List.cons_ne_nil b bs)]
    refine ⟨haccept _ _, ?_, rfl⟩
    rw [accepted_append, accepted_singleton _ (haccept _ _)]

theorem sendBuffers_accepts (bufs : List (List UInt8)) (s : State) :
    (sendBuffers device bufs s).1 = noError ∧
      accepted (sendBuffers device bufs s).2.sent = accepted s.sent ++ bufs.flatten ∧
      (sendBuffers device bufs s).2.pending = s.pending := by
  induction bufs generalizing s with
  | nil => exact ⟨rfl, (List.append_nil _).symm, rfl⟩
  | cons buf bufs ih =>
    obtain ⟨herr, hsent, hpending⟩ := sendBuffer_accepts haccept s buf
    obtain ⟨herr', hsent', hpending'⟩ := ih (sendBuffer device s buf).2
    rw [sendBuffers]
    dsimp only
    rw [if_neg (not_not_intro herr)]
    refine ⟨herr', ?_, hpending'.trans hpending⟩
    rw [hsent', hsent, List.flatten_cons, List.append_assoc]

theorem send_accepts (s : State) (buf : List UInt8) : (send device s buf).1 = noError := by
  have hplace : ∀ (s : State) (m : Mem), (place device s m buf).1 = noError := by
    intro s m
    unfold place
    split <;> rfl
  unfold send
  split
  · exact (sendBuffer_accepts haccept s buf).1
  · split
    · dsimp only
      rw [if_neg (not_not_intro (sendBuffer_accepts haccept s _).1)]
      exact hplace _ _
    · exact hplace _ _

theorem sendAll_accepts (pieces : List (List UInt8)) {s : State} (hs : s.Inside) :
    (sendAll device pieces s).1 = noError ∧
      accepted (sendAll device pieces s).2.sent ++ (sendAll device pieces s).2.pending
        = accepted s.sent ++ s.pending ++ pieces.flatten := by
  suffices h : ∀ (r : DriverError × State), r.1 = noError → r.2.Inside →
      (pieces.foldl (fun r buf => send device r.2 buf) r).1 = noError ∧
        accepted (pieces.foldl (fun r buf => send device r.2 buf) r).2.sent
            ++ (pieces.foldl (fun r buf => send device r.2 buf) r).2.pending
          = accepted r.2.sent ++ r.2.pending ++ pieces.flatten from h (noError, s) rfl hs
  induction pieces with
  | nil => exact fun r hr _ => ⟨hr, (List.append_nil _).symm⟩
  | cons buf pieces ih =>
    intro r _ hr
    have hdoes : Does device r.2 (.send buf) (send device r.2 buf) := send_does hr buf
    have hno : ¬ BypassFails device r.2 (.send buf) := fun h => h.2.2.2.2 (haccept _ _)
    have herr := send_accepts haccept r.2 buf
    obtain ⟨herr', hdata⟩ := ih _ herr hdoes.inside
    refine ⟨herr', ?_⟩
    have hone : _ = accepted r.2.sent ++ r.2.pending ++ buf := hdoes.delivered hno herr
    rw [List.foldl_cons, hdata, hone, List.flatten_cons, List.append_assoc _ buf]

theorem cleanup_accepts (s : State) : (cleanup device s).1 = noError ∧
    accepted (cleanup device s).2.sent = accepted s.sent ++ s.pending := by
  have herr : (cleanup device s).1 = noError := by
    unfold cleanup
    split
    · rfl
    · split
      · exact (sendBuffer_accepts haccept s _).1
      · rfl
  have hptr : (cleanup device s).2.curPclBufferPtr = 0 := by
    unfold cleanup
    split
    · rfl
    · split <;> rfl
  have hdoes : Does device s .cleanup (cleanup device s) := cleanup_does
  have hdata := hdoes.delivered id herr
  rw [pending_eq_nil hptr, List.append_nil] at hdata
  exact ⟨herr, hdata.trans (List.append_nil _)⟩

theorem encapsulate_accepts (s : State) (raster : RasterData) {data : Mem}
    (hdata : raster.rasterdata .color = some data) (hsize : raster.rastersize .color ≠ 0) :
    (encapsulate device s raster).1 = noError ∧
      accepted (encapsulate device s raster).2.sent = accepted s.sent
        ++ (monoChunks data (raster.rastersize .color)).flatMap Chunk.bytes ++ s.pending := by
  unfold encapsulate
  rw [hdata]
  dsimp only
  rw [if_neg hsize]
  generalize raster.rastersize .color = size
  obtain ⟨herr, hsent, hpending⟩ := sendBuffers_accepts haccept (monoPieces data size) s
  generalize sendBuffers device (monoPieces data size) s = r at herr hsent hpending ⊢
  rw [if_neg (not_not_intro herr)]
  -- the padding, which is left out if it is empty
  have hpad : ∀ x, x = (if padCount 16 (size - 20) ≠ 0 then
        sendBuffer device r.2 (List.replicate (padCount 16 (size - 20)) 0) else r) →
      x.1 = noError ∧ accepted x.2.sent
        = accepted r.2.sent ++ List.replicate (padCount 16 (size - 20)) 0 ∧
      x.2.pending = r.2.pending := by
    rintro x rfl
    split
    · exact sendBuffer_accepts haccept _ _
    · rename_i hzero
      rw [not_not.mp hzero]
      exact ⟨herr, (List.append_nil _).symm, rfl⟩
  obtain ⟨herr', hsent', hpending'⟩ := hpad _ rfl
  generalize (if padCount 16 (size - 20) ≠ 0 then _ else r) = r' at herr' hsent' hpending' ⊢
  rw [if_pos herr']
  obtain ⟨-, hsent'', hpending''⟩ :=
    sendBuffer_accepts haccept r'.2 (sendChunkHeader 16 .endJbig 0)
  obtain ⟨hcleanup, hall⟩ :=
    cleanup_accepts haccept (sendBuffer device r'.2 (sendChunkHeader 16 .endJbig 0)).2
  refine ⟨hcleanup, ?_⟩
  rw [hall, hsent'', hsent', hsent, hpending'', hpending', hpending, ← monoPieces_flatten]
  simp only [List.append_assoc]

end Sending

/-- **ZJStream framing.** Both paths send complete chunks that carry the data and
its padding: directly, or through the buffer. -/
theorem chunks_framed (device : Device) (haccept : ∀ sent buf, device sent buf = noError)
    (s : State) (hs : s.Inside) (raster : RasterData) (data : Mem)
    (hdata : raster.rasterdata .color = some data) (hsize : 20 ≤ raster.rastersize .color) :
    (∃ stream, Framed 16 data (raster.rastersize .color) stream ∧
      (encapsulate device s raster).1 = noError ∧
      accepted (encapsulate device s raster).2.sent = accepted s.sent ++ stream ++ s.pending) ∧
    ∀ (colorMode : Int) (iPlaneNumber : Fin 4),
      Returns (encapsulateColor2 device colorMode s iPlaneNumber data (raster.rastersize .color))
        fun r => ∃ stream, Framed 4 data (raster.rastersize .color) stream ∧ r.1 = noError ∧
          accepted r.2.1.sent ++ r.2.1.pending = accepted s.sent ++ s.pending ++ stream := by
  constructor
  · obtain ⟨herr, hsent⟩ := encapsulate_accepts haccept s raster hdata (by omega)
    exact ⟨_, monoChunks_framed _ _, herr, hsent⟩
  · intro colorMode iPlaneNumber
    unfold encapsulateColor2
    refine Returns.bind (colorPieces_flatten _ _ _ _) ?_
    intro pieces hpieces
    obtain ⟨herr, hsent⟩ := sendAll_accepts haccept pieces hs
    refine Returns.pure ⟨_, colorChunks_framed colorMode iPlaneNumber _ _, herr, ?_⟩
    rw [← hpieces]
    exact hsent

/-- A full chunk and nothing behind it, from the state in which a job starts. -/
theorem chunks_framed_full_chunk : ∃ stream, Framed 16 (fun _ => 1) (20 + 65536) stream ∧
    accepted (encapsulate (fun _ _ => noError) State.started
      (.only .color (fun _ => 1) (20 + 65536))).2.sent = stream := by
  obtain ⟨⟨stream, hframed, -, hsent⟩, -⟩ := chunks_framed (fun _ _ => noError) (fun _ _ => rfl)
    State.started (fun _ => Nat.zero_le _) (.only .color (fun _ => 1) (20 + 65536)) (fun _ => 1)
    rfl (Nat.le_add_right 20 65536)
  refine ⟨stream, hframed, ?_⟩
  rw [hsent]
  exact List.append_nil _

end Hplip.Hpcups.Zjs
