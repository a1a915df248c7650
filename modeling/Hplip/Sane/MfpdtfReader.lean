import Mathlib
import Hplip.Sane.Mfpdtf

/-!
# A reader of image data (mfpdtf.c)

The data of an image are records in blocks. `MfpdtfReadService` reads the header of a block or
of a record, and `MfpdtfReadInnerBlock` the bytes of a raster record, over the ends of blocks.
Both count what is left of the block and of the record. The channel has all bytes at once, and
times out at its end.
-/

namespace Hplip.Sane.MfpdtfReader

open Mfpdtf (le16 le32 word16 word32 le16_word16 le32_word32 sizeofFixedHeader readChannelEx)

structure Result where
  pageFlags : UInt8
  readTimeout : Bool
  readError : Bool
  otherError : Bool
  newDataType : Bool
  newVariantHeader : Bool
  genericDataPending : Bool
  arrayDataPending : Bool
  newStartOfPageRecord : Bool
  imageDataPending : Bool
  newEndOfPageRecord : Bool

def Result.zero : Result :=
  ⟨0, false, false, false, false, false, false, false, false, false, false⟩

def Result.timeout : Result := { Result.zero with readTimeout := true }

/-- `MFPDTF_RESULT_ERROR_MASK`. -/
def Result.isError (r : Result) : Bool := r.readTimeout || r.readError || r.otherError

/-- The members of `mfpdtf->read`, and what the channel has. -/
structure Reader where
  simulateImageHeaders : Bool
  lastServiceResult : Result
  dataType : Int
  pageFlags : UInt8
  fixedBlockBytesRemaining : Int
  innerBlockBytesRemaining : Int
  dontDecrementInnerBlock : Bool
  channel : List UInt8

def dtScan : Nat := 2

/-- `MfpdtfReadIsImageData`. -/
def IsImageData (s : Reader) : Prop := s.dataType = 1 ∨ s.dataType = 2 ∨ s.dataType = 4

instance (s : Reader) : Decidable (IsImageData s) :=
  inferInstanceAs (Decidable (_ ∨ _ ∨ _))

/-- `MfpdtfAllocate`. -/
def allocate (channel : List UInt8) : Reader where
  simulateImageHeaders := false
  lastServiceResult := .zero
  dataType := -1
  pageFlags := 0
  fixedBlockBytesRemaining := 0
  innerBlockBytesRemaining := 0
  dontDecrementInnerBlock := false
  channel := channel

/-! ## The calls -/

/-- What `MfpdtfReadGeneric` counts. -/
def account (r : Nat) (s : Reader) : Reader :=
  { s with
    fixedBlockBytesRemaining := s.fixedBlockBytesRemaining - r
    innerBlockBytesRemaining :=
      if s.dontDecrementInnerBlock then s.innerBlockBytesRemaining
      else s.innerBlockBytesRemaining - r
    dontDecrementInnerBlock := false }

/-- `MfpdtfReadGeneric`. -/
def readGeneric (datalen : Int) (s : Reader) : List UInt8 × Reader :=
  -- not past the end of the block
  let datalen := min datalen s.fixedBlockBytesRemaining
  if 0 < datalen then
    let (data, channel) := readChannelEx datalen.toNat s.channel
    let s := { s with channel := channel }
    let s := if 0 < data.length then account data.length s else s
    (data, if (data.length : Int) ≠ datalen then { s with lastServiceResult := .timeout } else s)
  else ([], s)

/-- `RETURN`, with what is left of the block. -/
def finish (result : Result) (s : Reader) : Result × Reader :=
  let result := { result with
    genericDataPending := decide (0 < s.fixedBlockBytesRemaining)
    pageFlags := s.pageFlags }
  (result, { s with lastServiceResult := result })

/-- A read of `datalen` bytes, and what is done with them. -/
def readPart (datalen : Nat) (s : Reader) (k : List UInt8 → Reader → Result × Reader) :
    Result × Reader :=
  let (data, s) := readGeneric datalen s
  if data.length ≠ datalen then (.timeout, s) else k data s

/-- `LEND_GET_LONG`, an `int`. -/
def lendGetLong (n : Nat) : Int := if n < 2 ^ 31 then n else n - 2 ^ 32

/-- The first part of `MfpdtfReadService`: the headers of a block. Image data are no array. -/
def readHeaders (s : Reader) : Result × Reader :=
  readPart sizeofFixedHeader
      { s with fixedBlockBytesRemaining := sizeofFixedHeader, dontDecrementInnerBlock := true }
      fun h s =>
    let blockLength := lendGetLong (le32 (h.getD 0 0) (h.getD 1 0) (h.getD 2 0) (h.getD 3 0))
    let headerLength := le16 (h.getD 4 0) (h.getD 5 0)
    let dataType := (h.getD 6 0).toNat
    let s := { s with
      fixedBlockBytesRemaining := blockLength - sizeofFixedHeader
      pageFlags := h.getD 7 0 }
    if dataType ≠ dtScan then ({ Result.zero with readError := true }, s)
    else
      let result := { Result.zero with newDataType := decide (s.dataType ≠ dataType) }
      let s := { s with dataType := dataType }
      if headerLength ≤ sizeofFixedHeader then finish result s
      else
        readPart (headerLength - sizeofFixedHeader) { s with dontDecrementInnerBlock := true }
          fun _ s =>
            finish { result with newVariantHeader := true } { s with innerBlockBytesRemaining := 0 }

def readRecord (s : Reader) : Result × Reader :=
  readPart 1 s fun id s =>
    if id = [1] then
      readPart 3 s fun h s =>
        finish { Result.zero with imageDataPending := true }
          { s with innerBlockBytesRemaining := le16 (h.getD 1 0) (h.getD 2 0) }
    else if id = [0] then
      readPart 35 s fun _ s => finish { Result.zero with newStartOfPageRecord := true } s
    else if id = [2] then
      readPart 11 s fun _ s => finish { Result.zero with newEndOfPageRecord := true } s
    else
      let result := { Result.zero with otherError := true }
      (result, { s with lastServiceResult := result })

/-- `MfpdtfReadService`. -/
def readService (s : Reader) : Result × Reader :=
  if s.fixedBlockBytesRemaining ≤ 0 then readHeaders s
  else if IsImageData s then
    if 0 < s.innerBlockBytesRemaining then
      finish { Result.zero with imageDataPending := true } s
    else if s.simulateImageHeaders then
      let s : Reader := { s with innerBlockBytesRemaining := s.fixedBlockBytesRemaining }
      finish { Result.zero with imageDataPending := decide (0 < s.innerBlockBytesRemaining) } s
    else readRecord s
  else finish { Result.zero with arrayDataPending := decide (0 < s.innerBlockBytesRemaining) } s

/-- The loop of `MfpdtfReadInnerBlock`, of at most `rounds` rounds: the bytes it has counted. -/
def readInnerBlock : Nat → Int → Reader → Option (List UInt8 × Reader)
  | 0, _, _ => none
  | rounds + 1, countdown, s =>
    let countdown := min countdown s.innerBlockBytesRemaining
    if countdown ≤ 0 then some ([], s)
    else
      let (data, s) := readGeneric countdown s
      -- what came with an error is not counted
      if s.lastServiceResult.isError then some ([], s)
      else
        let countdown := countdown - data.length
        if countdown ≤ 0 then some (data, s)
        else
          let (r, s) := readService s
          if r.isError || r.newDataType || r.newVariantHeader then some (data, s)
          else (readInnerBlock rounds countdown s).map fun o => (data ++ o.1, o.2)

/-! ## A client -/

structure Client where
  reader : Reader
  pending : Bool
  got : List UInt8

/-- The next call of a client, with a buffer of `size` bytes. No round of the loop is without a
byte of the channel, so that there are no more of them than bytes. -/
def step (size : Nat) (c : Client) : Option Client :=
  if c.pending ∧ 0 < c.reader.innerBlockBytesRemaining then
    (readInnerBlock (c.reader.channel.length + 1) size c.reader).map fun o =>
      { c with reader := o.2, got := c.got ++ o.1 }
  else
    let (r, s) := readService c.reader
    some { c with reader := s, pending := r.imageDataPending }

/-- The first `n` calls. -/
def run (sizes : Nat → Nat) (c : Client) : Nat → Option Client
  | 0 => some c
  | n + 1 => (run sizes c n).bind (step (sizes n))

/-! ## Streams -/

inductive Piece
  | startPage (record : List UInt8) (h : record.length = 35)
  | raster (traits : UInt8) (byteCount : Nat) (h : byteCount < 2 ^ 16)
  | endPage (record : List UInt8) (h : record.length = 11)
  | data (bytes : List UInt8)

def Piece.bytes : Piece → List UInt8
  | .startPage record _ => 0 :: record
  | .raster traits byteCount _ => 1 :: traits :: word16 byteCount
  | .endPage record _ => 2 :: record
  | .data bytes => bytes

def Piece.payload : Piece → List UInt8
  | .data bytes => bytes
  | _ => []

def bytesOf (ps : List Piece) : List UInt8 := ps.flatMap Piece.bytes

def payloadOf (ps : List Piece) : List UInt8 := ps.flatMap Piece.payload

/-- The pieces go on with `k` bytes of a raster record, and no record breaks off. -/
def Sound : Nat → List Piece → Prop
  | k, [] => k = 0
  | k, .data bytes :: ps => bytes.length ≤ k ∧ Sound (k - bytes.length) ps
  | k, .raster _ byteCount _ :: ps => k = 0 ∧ Sound byteCount ps
  | k, .startPage _ _ :: ps => k = 0 ∧ Sound 0 ps
  | k, .endPage _ _ :: ps => k = 0 ∧ Sound 0 ps

structure Block where
  pageFlags : UInt8
  variant : List UInt8
  pieces : List Piece
  header_fits : sizeofFixedHeader + variant.length < 2 ^ 16
  fits : sizeofFixedHeader + variant.length + (bytesOf pieces).length < 2 ^ 31

def Block.content (b : Block) : List UInt8 := bytesOf b.pieces

def Block.header (b : Block) : List UInt8 :=
  word32 (sizeofFixedHeader + b.variant.length + b.content.length)
    ++ word16 (sizeofFixedHeader + b.variant.length) ++ [2, b.pageFlags]

def Block.bytes (b : Block) : List UInt8 := b.header ++ b.variant ++ b.content

structure Stream where
  first : Block
  others : List Block
  plain : ∀ b ∈ others, b.variant = []
  sound : Sound 0 ((first :: others).flatMap Block.pieces)

def Stream.blocks (st : Stream) : List Block := st.first :: st.others

def Stream.bytes (st : Stream) : List UInt8 := st.blocks.flatMap Block.bytes

def Stream.payload (st : Stream) : List UInt8 := payloadOf (st.blocks.flatMap Block.pieces)

/-- Of the channel's bytes the first `n` are those of the current block that have not been read;
in front of the first block there are none. -/
def Unread (st : Stream) (channel : List UInt8) (n : Int) : Prop :=
  (channel = st.bytes ∧ n = 0) ∨
  ∃ before b after rest, st.blocks = before ++ b :: after ∧ rest <:+ b.content ∧
    channel = rest ++ after.flatMap Block.bytes ∧ n = rest.length

/-! ## The calls on what the channel has -/

section Calls

variable {s : Reader} {data tail : List UInt8}

theorem readGeneric_eq {n : Int} (hlen : min n s.fixedBlockBytesRemaining = data.length)
    (hpos : 0 < data.length) (hchannel : s.channel = data ++ tail) :
    readGeneric n s = (data, account data.length { s with channel := tail }) := by
  have hsome : (0 : Int) < data.length := by omega
  rw [readGeneric, hlen]
  dsimp only
  rw [if_pos hsome, Int.toNat_natCast, hchannel]
  simp only [readChannelEx, List.take_left, List.drop_left]
  rw [if_pos hpos, if_neg (not_not.mpr rfl)]

theorem readGeneric_end {n : Int} (hend : s.fixedBlockBytesRemaining = 0) :
    readGeneric n s = ([], s) := by
  have hnone : ¬ 0 < min n s.fixedBlockBytesRemaining := by omega
  rw [readGeneric]
  exact if_neg hnone

theorem readPart_eq {n : Nat} (k : List UInt8 → Reader → Result × Reader)
    (hlen : data.length = n) (hpos : 0 < n) (hfits : (n : Int) ≤ s.fixedBlockBytesRemaining)
    (hchannel : s.channel = data ++ tail) :
    readPart n s k = k data (account n { s with channel := tail }) := by
  subst hlen
  rw [readPart, readGeneric_eq (Int.min_eq_left hfits) hpos hchannel]
  exact if_neg (not_not.mpr rfl)

end Calls

structure Opened (s : Reader) (b : Block) (tail : List UInt8) (r : Result) (s' : Reader) :
    Prop where
  noError : r.isError = false
  newDataType : r.newDataType = decide (s.dataType ≠ dtScan)
  newVariantHeader : r.newVariantHeader = decide (b.variant ≠ [])
  imageDataPending : r.imageDataPending = false
  last : s'.lastServiceResult.isError = false
  channel : s'.channel = b.content ++ tail
  fixed : s'.fixedBlockBytesRemaining = b.content.length
  inner : s'.innerBlockBytesRemaining = if b.variant = [] then s.innerBlockBytesRemaining else 0
  dontDecrement : s'.dontDecrementInnerBlock = false
  dataType : s'.dataType = dtScan
  simulate : s'.simulateImageHeaders = s.simulateImageHeaders

theorem Block.header_length (b : Block) : b.header.length = sizeofFixedHeader := rfl

theorem readHeaders_spec {s : Reader} (b : Block) {tail : List UInt8}
    (hchannel : s.channel = b.bytes ++ tail) :
    ∃ r s', readHeaders s = (r, s') ∧ Opened s b tail r s' := by
  have height : sizeofFixedHeader = 8 := rfl
  have hfits := b.fits
  have hheader := b.header_fits
  have hfront : s.channel = b.header ++ (b.variant ++ b.content ++ tail) := by
    rw [hchannel, Block.bytes]
    simp only [List.append_assoc]
  have hcontent : b.content.length = (bytesOf b.pieces).length := rfl
  have hlong : lendGetLong (le32 (b.header.getD 0 0) (b.header.getD 1 0) (b.header.getD 2 0)
      (b.header.getD 3 0)) = (sizeofFixedHeader + b.variant.length + b.content.length : Nat) := by
    have hword : le32 (b.header.getD 0 0) (b.header.getD 1 0) (b.header.getD 2 0)
        (b.header.getD 3 0) = sizeofFixedHeader + b.variant.length + b.content.length :=
      le32_word32 (by lia)
    rw [hword, lendGetLong, if_pos (by lia)]
  have hshort : le16 (b.header.getD 4 0) (b.header.getD 5 0)
      = sizeofFixedHeader + b.variant.length := le16_word16 hheader
  rw [readHeaders, readPart_eq (s := { s with
      fixedBlockBytesRemaining := sizeofFixedHeader
      dontDecrementInnerBlock := true }) _ b.header_length (by decide) (Int.le_refl _) hfront]
  dsimp only
  rw [hlong, hshort, if_neg (show ¬ (b.header.getD 6 0).toNat ≠ dtScan from not_not.mpr rfl)]
  by_cases hvariant : b.variant = []
  · rw [if_pos (by rw [hvariant]; exact Nat.le_refl _)]
    refine ⟨_, _, rfl, ?_⟩
    exact {
      noError := rfl
      newDataType := rfl
      newVariantHeader := (decide_eq_false (not_not.mpr hvariant)).symm
      imageDataPending := rfl
      last := rfl
      channel := by
        show b.variant ++ b.content ++ tail = b.content ++ tail
        rw [hvariant, List.nil_append]
      fixed := by
        show ((sizeofFixedHeader + b.variant.length + b.content.length : Nat) : Int)
          - sizeofFixedHeader = b.content.length
        rw [hvariant, List.length_nil]
        lia
      inner := (if_pos hvariant).symm
      dontDecrement := rfl
      dataType := rfl
      simulate := rfl }
  · have hpos : 0 < b.variant.length := List.length_pos_iff.mpr hvariant
    rw [if_neg (by lia), Nat.add_sub_cancel_left,
      readPart_eq _ (rfl : b.variant.length = _) hpos
        (by dsimp only; lia)
        (show b.variant ++ b.content ++ tail = b.variant ++ (b.content ++ tail) from
          List.append_assoc ..)]
    refine ⟨_, _, rfl, ?_⟩
    exact {
      noError := rfl
      newDataType := rfl
      newVariantHeader := (decide_eq_true hvariant).symm
      imageDataPending := rfl
      last := rfl
      channel := rfl
      fixed := by
        show ((sizeofFixedHeader + b.variant.length + b.content.length : Nat) : Int)
          - sizeofFixedHeader - b.variant.length = b.content.length
        lia
      inner := (if_neg hvariant).symm
      dontDecrement := rfl
      dataType := rfl
      simulate := rfl }

def Piece.count : Piece → Nat
  | .raster _ byteCount _ => byteCount
  | _ => 0

def Piece.IsData : Piece → Prop
  | .data _ => True
  | _ => False

structure Recorded (s : Reader) (p : Piece) (tail : List UInt8) (r : Result) (s' : Reader) :
    Prop where
  noError : r.isError = false
  imageDataPending : 0 < p.count → r.imageDataPending = true
  last : s'.lastServiceResult.isError = false
  channel : s'.channel = tail
  fixed : s'.fixedBlockBytesRemaining = s.fixedBlockBytesRemaining - p.bytes.length
  inner : if p.count = 0 then s'.innerBlockBytesRemaining ≤ 0
    else s'.innerBlockBytesRemaining = p.count
  dontDecrement : s'.dontDecrementInnerBlock = false
  dataType : s'.dataType = s.dataType
  simulate : s'.simulateImageHeaders = s.simulateImageHeaders

theorem page_spec {s : Reader} {p : Piece} {record tail : List UInt8} {n : Nat} (result : Result)
    (hresult : result.isError = false) (hcount : p.count = 0) (hrecord : record.length = n)
    (hpos : 0 < n) (hlength : p.bytes.length = n + 1)
    (hfits : (p.bytes.length : Int) ≤ s.fixedBlockBytesRemaining)
    (hdont : s.dontDecrementInnerBlock = false) (hinner : s.innerBlockBytesRemaining ≤ 0) :
    ∃ r s', readPart n (account 1 { s with channel := record ++ tail })
        (fun _ s => finish result s) = (r, s') ∧ Recorded s p tail r s' := by
  rw [readPart_eq _ hrecord hpos (by simp only [account]; lia) rfl]
  refine ⟨_, _, rfl, ?_⟩
  exact {
    noError := hresult
    imageDataPending := fun hlt => absurd hlt (by lia)
    last := hresult
    channel := rfl
    fixed := by
      show s.fixedBlockBytesRemaining - (1 : Nat) - (n : Nat) = _
      rw [hlength]
      lia
    inner := by
      rw [if_pos hcount]
      show (if s.dontDecrementInnerBlock then s.innerBlockBytesRemaining
        else s.innerBlockBytesRemaining - (1 : Nat)) - (n : Nat) ≤ 0
      rw [hdont]
      simp only [Bool.false_eq_true, if_false]
      lia
    dontDecrement := rfl
    dataType := rfl
    simulate := rfl }

theorem readRecord_spec {s : Reader} (p : Piece) (hp : ¬ p.IsData) {tail : List UInt8}
    (hchannel : s.channel = p.bytes ++ tail)
    (hfits : (p.bytes.length : Int) ≤ s.fixedBlockBytesRemaining)
    (hdont : s.dontDecrementInnerBlock = false) (hinner : s.innerBlockBytesRemaining ≤ 0) :
    ∃ r s', readRecord s = (r, s') ∧ Recorded s p tail r s' := by
  cases p with
  | data bytes => exact absurd trivial hp
  | raster traits byteCount h =>
    have hlength : (Piece.raster traits byteCount h).bytes.length = 4 := rfl
    have hid : s.channel = [1] ++ (traits :: word16 byteCount ++ tail) := hchannel
    rw [hlength] at hfits
    rw [readRecord, readPart_eq (n := 1) _ rfl (by decide) (by omega) hid, if_pos rfl,
      readPart_eq (n := 3) _ (rfl : (traits :: word16 byteCount).length = 3) (by decide)
        (by simp only [account]; omega) rfl]
    refine ⟨_, _, rfl, ?_⟩
    have hcount : le16 byteCount.toUInt8 (byteCount / 256).toUInt8 = byteCount := le16_word16 h
    exact {
      noError := rfl
      imageDataPending := fun _ => rfl
      last := rfl
      channel := rfl
      fixed := by
        show s.fixedBlockBytesRemaining - (1 : Nat) - (3 : Nat) = _
        rw [hlength]
        omega
      inner := by
        show if byteCount = 0
          then ((le16 byteCount.toUInt8 (byteCount / 256).toUInt8 : Nat) : Int) ≤ 0
          else ((le16 byteCount.toUInt8 (byteCount / 256).toUInt8 : Nat) : Int) = byteCount
        rw [hcount]
        split <;> omega
      dontDecrement := rfl
      dataType := rfl
      simulate := rfl }
  | startPage record h =>
    have hlength : (Piece.startPage record h).bytes.length = 35 + 1 := congrArg (· + 1) h
    have hid : s.channel = [0] ++ (record ++ tail) := hchannel
    rw [readRecord, readPart_eq (n := 1) _ rfl (by decide) (by omega) hid, if_neg (by decide),
      if_pos rfl]
    exact page_spec _ rfl rfl h (by decide) hlength hfits hdont hinner
  | endPage record h =>
    have hlength : (Piece.endPage record h).bytes.length = 11 + 1 := congrArg (· + 1) h
    have hid : s.channel = [2] ++ (record ++ tail) := hchannel
    rw [readRecord, readPart_eq (n := 1) _ rfl (by decide) (by omega) hid, if_neg (by decide),
      if_neg (by decide), if_pos rfl]
    exact page_spec _ rfl rfl h (by decide) hlength hfits hdont hinner

/-! ## Pieces in a row -/

section Pieces

variable {rest ps : List Piece} {k : Nat}

theorem bytesOf_cons (p : Piece) (ps : List Piece) : bytesOf (p :: ps) = p.bytes ++ bytesOf ps :=
  List.flatMap_cons

theorem payloadOf_cons (p : Piece) (ps : List Piece) :
    payloadOf (p :: ps) = p.payload ++ payloadOf ps := List.flatMap_cons

theorem payloadOf_append (ps qs : List Piece) :
    payloadOf (ps ++ qs) = payloadOf ps ++ payloadOf qs := List.flatMap_append

theorem Piece.bytes_ne_nil {p : Piece} (hp : ¬ p.IsData) : p.bytes ≠ [] := by
  cases p with
  | data bytes => exact absurd trivial hp
  | raster traits byteCount h => exact List.cons_ne_nil _ _
  | startPage record h => exact List.cons_ne_nil _ _
  | endPage record h => exact List.cons_ne_nil _ _

theorem Sound.header {p : Piece} (hp : ¬ p.IsData) (h : Sound k (p :: ps)) :
    k = 0 ∧ p.payload = [] ∧ Sound p.count ps := by
  cases p with
  | data bytes => exact absurd trivial hp
  | raster traits byteCount hcount => exact ⟨h.1, rfl, h.2⟩
  | startPage record hrecord => exact ⟨h.1, rfl, h.2⟩
  | endPage record hrecord => exact ⟨h.1, rfl, h.2⟩

theorem Sound.of_empty (hempty : bytesOf rest = []) (h : Sound k (rest ++ ps)) :
    Sound k ps ∧ payloadOf rest = [] := by
  induction rest generalizing k with
  | nil => exact ⟨h, rfl⟩
  | cons p rest ih =>
    rw [bytesOf_cons, List.append_eq_nil_iff] at hempty
    cases p with
    | data bytes =>
      obtain rfl : bytes = [] := hempty.1
      obtain ⟨hsound, hpayload⟩ := ih hempty.2 h.2
      exact ⟨hsound, hpayload⟩
    | raster traits byteCount hcount => exact absurd hempty.1 (List.cons_ne_nil _ _)
    | startPage record hrecord => exact absurd hempty.1 (List.cons_ne_nil _ _)
    | endPage record hrecord => exact absurd hempty.1 (List.cons_ne_nil _ _)

theorem Sound.next (hne : bytesOf rest ≠ []) (h : Sound 0 (rest ++ ps)) :
    ∃ (p : Piece) (rest' : List Piece), ¬ p.IsData ∧ bytesOf rest = p.bytes ++ bytesOf rest' ∧
      payloadOf rest = payloadOf rest' ∧ Sound p.count (rest' ++ ps) := by
  induction rest with
  | nil => exact absurd rfl hne
  | cons p rest ih =>
    by_cases hp : p.IsData
    · cases p with
      | data bytes =>
        obtain rfl : bytes = [] := List.eq_nil_of_length_eq_zero (Nat.le_zero.mp h.1)
        exact ih hne h.2
      | raster traits byteCount hcount => exact hp.elim
      | startPage record hrecord => exact hp.elim
      | endPage record hrecord => exact hp.elim
    · obtain ⟨-, hpayload, hsound⟩ := Sound.header hp h
      refine ⟨p, rest, hp, bytesOf_cons p rest, ?_, hsound⟩
      rw [payloadOf_cons, hpayload, List.nil_append]

theorem Sound.take {m : Nat} (hm : m ≤ k) (hbytes : m ≤ (bytesOf rest).length)
    (h : Sound k (rest ++ ps)) :
    ∃ rest', bytesOf rest' = (bytesOf rest).drop m ∧
      payloadOf rest = (bytesOf rest).take m ++ payloadOf rest' ∧ Sound (k - m) (rest' ++ ps) := by
  induction rest generalizing k m with
  | nil =>
    obtain rfl : m = 0 := Nat.le_zero.mp hbytes
    exact ⟨[], rfl, rfl, h⟩
  | cons p rest ih =>
    rcases Nat.eq_zero_or_pos m with rfl | hpos
    · exact ⟨p :: rest, rfl, rfl, h⟩
    -- a piece that is no data would end the record
    by_cases hp : p.IsData
    · cases p with
      | data bytes =>
        obtain ⟨hle, hsound⟩ := h
        rcases Nat.le_total m bytes.length with hin | hout
        · refine ⟨.data (bytes.drop m) :: rest, ?_, ?_, ?_⟩
          · rw [bytesOf_cons, bytesOf_cons]
            exact (List.drop_append_of_le_length hin).symm
          · rw [payloadOf_cons, payloadOf_cons, bytesOf_cons]
            show bytes ++ payloadOf rest = (bytes ++ bytesOf rest).take m ++ (bytes.drop m ++ _)
            rw [List.take_append_of_le_length hin, ← List.append_assoc, List.take_append_drop]
          · refine ⟨?_, ?_⟩
            · rw [List.length_drop]
              lia
            · have hleft : k - m - (bytes.drop m).length = k - bytes.length := by
                rw [List.length_drop]
                lia
              rw [hleft]
              exact hsound
        · have hlength : (bytesOf (.data bytes :: rest)).length
              = bytes.length + (bytesOf rest).length := by
            rw [bytesOf_cons, List.length_append]
            rfl
          rw [hlength] at hbytes
          obtain ⟨rest', hdrop, hpayload, hrest⟩ :=
            ih (k := k - bytes.length) (m := m - bytes.length) (by lia) (by lia) hsound
          have hsplit : m = bytes.length + (m - bytes.length) := by lia
          refine ⟨rest', ?_, ?_, ?_⟩
          · rw [hdrop, bytesOf_cons, hsplit]
            show _ = (bytes ++ bytesOf rest).drop _
            rw [List.drop_append, Nat.add_sub_cancel_left,
              List.drop_of_length_le (Nat.le_add_right _ _), List.nil_append]
          · rw [payloadOf_cons, hpayload, bytesOf_cons, hsplit]
            show bytes ++ _ = (bytes ++ bytesOf rest).take _ ++ _
            rw [List.take_append, Nat.add_sub_cancel_left,
              List.take_of_length_le (Nat.le_add_right _ _), List.append_assoc]
          · have hleft : k - m = k - bytes.length - (m - bytes.length) := by lia
            rw [hleft]
            exact hrest
      | raster traits byteCount hcount => exact hp.elim
      | startPage record hrecord => exact hp.elim
      | endPage record hrecord => exact hp.elim
    · have hzero := (Sound.header hp h).1
      lia

end Pieces

/-! ## Within a stream -/

/-- The reader has `rest` of a block in front of it, and then the blocks `after`; `k` bytes of a
raster record are missing. -/
structure At (st : Stream) (rest : List Piece) (after : List Block) (k : Nat) (s : Reader) :
    Prop where
  blocks : ∃ before b, st.blocks = before ++ b :: after ∧ bytesOf rest <:+ b.content
  channel : s.channel = bytesOf rest ++ after.flatMap Block.bytes
  fixed : s.fixedBlockBytesRemaining = (bytesOf rest).length
  inner : if k = 0 then s.innerBlockBytesRemaining ≤ 0 else s.innerBlockBytesRemaining = k
  dontDecrement : s.dontDecrementInnerBlock = false
  dataType : s.dataType = dtScan
  simulate : s.simulateImageHeaders = false
  last : s.lastServiceResult.isError = false
  plain : ∀ b ∈ after, b.variant = []
  sound : Sound k (rest ++ after.flatMap Block.pieces)

def left (rest : List Piece) (after : List Block) : List UInt8 :=
  payloadOf (rest ++ after.flatMap Block.pieces)

section Within

variable {st : Stream} {rest : List Piece} {after : List Block} {k : Nat} {s : Reader}

theorem At.unread (h : At st rest after k s) :
    Unread st s.channel s.fixedBlockBytesRemaining := by
  obtain ⟨before, b, hblocks, hsuffix⟩ := h.blocks
  exact .inr ⟨before, b, after, _, hblocks, hsuffix, h.channel, h.fixed⟩

theorem At.next_block {b : Block} (h : At st rest (b :: after) k s) (hend : bytesOf rest = []) :
    ∃ r s', readService s = (r, s') ∧ r.isError = false ∧ r.newDataType = false ∧
      r.newVariantHeader = false ∧ At st b.pieces after k s' ∧
      left rest (b :: after) = left b.pieces after ∧ s'.channel.length < s.channel.length := by
  have hfixed : s.fixedBlockBytesRemaining ≤ 0 := by rw [h.fixed, hend]; exact Int.le_refl 0
  have hplain : b.variant = [] := h.plain b List.mem_cons_self
  have hchannel : s.channel = b.bytes ++ after.flatMap Block.bytes := by
    rw [h.channel, hend, List.nil_append, List.flatMap_cons]
  obtain ⟨r, s', hread, hopen⟩ := readHeaders_spec b hchannel
  obtain ⟨hsound, hempty⟩ := Sound.of_empty hend h.sound
  rw [List.flatMap_cons] at hsound
  obtain ⟨before, b', hblocks, -⟩ := h.blocks
  refine ⟨r, s', ?_, hopen.noError, ?_, ?_, ?_, ?_, ?_⟩
  · rw [readService, if_pos hfixed, hread]
  · rw [hopen.newDataType, h.dataType]
    rfl
  · rw [hopen.newVariantHeader, hplain]
    rfl
  · exact {
      blocks := ⟨before ++ [b'], b, by rw [hblocks, List.append_assoc]; rfl, List.suffix_refl _⟩
      channel := hopen.channel
      fixed := hopen.fixed
      inner := by
        rw [hopen.inner, if_pos hplain]
        exact h.inner
      dontDecrement := hopen.dontDecrement
      dataType := hopen.dataType
      simulate := hopen.simulate.trans h.simulate
      last := hopen.last
      plain := fun b hb => h.plain b (.tail _ hb)
      sound := hsound }
  · rw [left, left, payloadOf_append, hempty, List.nil_append, List.flatMap_cons]
  · have hlength : b.header.length = 8 := rfl
    rw [hopen.channel, hchannel, Block.bytes]
    simp only [List.length_append]
    lia

theorem At.next_record (h : At st rest after 0 s) (hne : bytesOf rest ≠ []) :
    ∃ r s' rest' k', readService s = (r, s') ∧ r.isError = false ∧
      (0 < k' → r.imageDataPending = true) ∧ At st rest' after k' s' ∧
      left rest after = left rest' after ∧ s'.channel.length < s.channel.length := by
  obtain ⟨p, rest', hp, hbytes, hpayload, hsound⟩ := Sound.next hne h.sound
  have hsome : 0 < p.bytes.length := List.length_pos_iff.mpr (Piece.bytes_ne_nil hp)
  have hinner : s.innerBlockBytesRemaining ≤ 0 := h.inner
  have hlength := congrArg List.length hbytes
  rw [List.length_append] at hlength
  have hchannel : s.channel = p.bytes ++ (bytesOf rest' ++ after.flatMap Block.bytes) := by
    rw [h.channel, hbytes, List.append_assoc]
  obtain ⟨r, s', hread, hrec⟩ := readRecord_spec p hp hchannel
    (by rw [h.fixed]; lia) h.dontDecrement hinner
  obtain ⟨before, b, hblocks, hsuffix⟩ := h.blocks
  have hrest : bytesOf rest' <:+ bytesOf rest := by
    rw [hbytes]
    exact List.suffix_append ..
  refine ⟨r, s', rest', p.count, ?_, hrec.noError, hrec.imageDataPending, ?_, ?_, ?_⟩
  · have himage : IsImageData s := .inr (.inl h.dataType)
    rw [readService, if_neg (by rw [h.fixed]; lia), if_pos himage, if_neg (by lia),
      if_neg (by rw [h.simulate]; exact Bool.false_ne_true), hread]
  · exact {
      blocks := ⟨before, b, hblocks, hrest.trans hsuffix⟩
      channel := hrec.channel
      fixed := by
        rw [hrec.fixed, h.fixed]
        lia
      inner := hrec.inner
      dontDecrement := hrec.dontDecrement
      dataType := hrec.dataType.trans h.dataType
      simulate := hrec.simulate.trans h.simulate
      last := hrec.last
      plain := h.plain
      sound := hsound }
  · rw [left, left, payloadOf_append, payloadOf_append, hpayload]
  · rw [hrec.channel, hchannel]
    simp only [List.length_append]
    lia

theorem At.read {m : Nat} (h : At st rest after k s) (hm : m ≤ k) (hpos : 0 < m)
    (hbytes : m ≤ (bytesOf rest).length) {n : Int}
    (hn : min n s.fixedBlockBytesRemaining = m) :
    ∃ data s' rest', readGeneric n s = (data, s') ∧ data.length = m ∧
      At st rest' after (k - m) s' ∧ left rest after = data ++ left rest' after ∧
      bytesOf rest' = (bytesOf rest).drop m ∧ s'.channel.length < s.channel.length := by
  obtain ⟨rest', hdrop, hpayload, hsound⟩ := Sound.take hm hbytes h.sound
  have hlength : ((bytesOf rest).take m).length = m := List.length_take_of_le hbytes
  have hchannel : s.channel
      = (bytesOf rest).take m ++ (bytesOf rest' ++ after.flatMap Block.bytes) := by
    rw [h.channel, hdrop, ← List.append_assoc, List.take_append_drop]
  have hread := readGeneric_eq (n := n) (by rw [hlength]; exact hn) (by lia) hchannel
  rw [hlength] at hread
  have hinner : s.innerBlockBytesRemaining = k := by
    have := h.inner
    rwa [if_neg (by lia)] at this
  obtain ⟨before, b, hblocks, hsuffix⟩ := h.blocks
  have hrest : bytesOf rest' <:+ bytesOf rest := by
    rw [hdrop]
    exact List.drop_suffix ..
  refine ⟨_, _, rest', hread, hlength, ?_, ?_, hdrop, ?_⟩
  · exact {
      blocks := ⟨before, b, hblocks, hrest.trans hsuffix⟩
      channel := rfl
      fixed := by
        show s.fixedBlockBytesRemaining - m = _
        rw [h.fixed, hdrop, List.length_drop]
        lia
      inner := by
        show if k - m = 0 then (if s.dontDecrementInnerBlock then s.innerBlockBytesRemaining
          else s.innerBlockBytesRemaining - m) ≤ 0
          else (if s.dontDecrementInnerBlock then s.innerBlockBytesRemaining
          else s.innerBlockBytesRemaining - m) = (k - m : Nat)
        rw [h.dontDecrement, hinner]
        simp only [Bool.false_eq_true, if_false]
        split <;> lia
      dontDecrement := rfl
      dataType := h.dataType
      simulate := h.simulate
      last := h.last
      plain := h.plain
      sound := hsound }
  · rw [left, left, payloadOf_append, payloadOf_append, hpayload, List.append_assoc]
  · show (bytesOf rest' ++ after.flatMap Block.bytes).length < _
    rw [hchannel]
    simp only [List.length_append, hlength]
    lia

theorem At.read_rest (h : At st rest after k s) {c : Nat} (hc : c ≤ k)
    (hless : (bytesOf rest).length < c) :
    ∃ data s' rest', readGeneric c s = (data, s') ∧ data.length = (bytesOf rest).length ∧
      At st rest' after (k - (bytesOf rest).length) s' ∧
      left rest after = data ++ left rest' after ∧ bytesOf rest' = [] ∧
      s'.channel.length ≤ s.channel.length := by
  rcases Nat.eq_zero_or_pos (bytesOf rest).length with hnone | hsome
  · have hend : s.fixedBlockBytesRemaining = 0 := by rw [h.fixed, hnone]; rfl
    rw [hnone]
    exact ⟨[], s, rest, readGeneric_end hend, rfl, h, rfl, List.eq_nil_of_length_eq_zero hnone,
      Nat.le_refl _⟩
  · obtain ⟨data, s', rest', hread, hlength, hat, hleft, hdrop, hlt⟩ :=
      h.read (by lia) hsome (Nat.le_refl _) (n := c) (by rw [h.fixed]; lia)
    exact ⟨data, s', rest', hread, hlength, hat, hleft, by rw [hdrop, List.drop_length],
      Nat.le_of_lt hlt⟩

theorem At.read_inner {rounds c : Nat} (h : At st rest after k s) (hc : c ≤ k) (hpos : 0 < c)
    (hrounds : after.length < rounds) {n : Int} (hn : min n s.innerBlockBytesRemaining = c) :
    ∃ data s' rest' after', readInnerBlock rounds n s = some (data, s') ∧
      At st rest' after' (k - c) s' ∧ left rest after = data ++ left rest' after' ∧
      s'.channel.length < s.channel.length := by
  induction rounds generalizing rest after k s c n with
  | zero => exact absurd hrounds (Nat.not_lt_zero _)
  | succ rounds ih =>
    rw [readInnerBlock]
    dsimp only
    rw [hn, if_neg (by lia)]
    -- does the block have all bytes that are asked for?
    rcases Nat.lt_or_ge (bytesOf rest).length c with hless | hall
    · obtain ⟨data, s₁, rest₁, hread, hlength, h₁, hleft, hend, hle⟩ := h.read_rest hc hless
      rw [hread]
      dsimp only
      rw [if_neg (by rw [h₁.last]; exact Bool.false_ne_true), if_neg (by lia)]
      cases after with
      | nil =>
        -- a record does not break off
        have hnothing : k - (bytesOf rest).length = 0 := (Sound.of_empty hend h₁.sound).1
        lia
      | cons b after =>
        obtain ⟨r, s₂, hservice, herror, htype, hvariant, h₂, hleft₂, hlt⟩ := h₁.next_block hend
        have hinner : s₂.innerBlockBytesRemaining = (k - (bytesOf rest).length : Nat) := by
          have := h₂.inner
          rwa [if_neg (by lia)] at this
        obtain ⟨data', s', rest', after', hloop, h', hleft', hlt'⟩ :=
          ih h₂ (c := c - (bytesOf rest).length) (n := (c : Int) - data.length) (by lia)
            (by lia) (Nat.lt_of_succ_lt_succ hrounds) (by rw [hinner]; lia)
        rw [hservice]
        dsimp only
        rw [herror, htype, hvariant, if_neg (by decide), hloop]
        have hmissing : k - (bytesOf rest).length - (c - (bytesOf rest).length) = k - c := by lia
        rw [hmissing] at h'
        refine ⟨data ++ data', s', rest', after', rfl, h', ?_, by lia⟩
        rw [hleft, hleft₂, hleft', List.append_assoc]
    · obtain ⟨data, s', rest', hread, hlength, h', hleft, -, hlt⟩ :=
        h.read hc hpos hall (n := c) (by rw [h.fixed]; lia)
      rw [hread]
      dsimp only
      rw [if_neg (by rw [h'.last]; exact Bool.false_ne_true), if_pos (by lia)]
      exact ⟨data, s', rest', after, rfl, h', hleft, hlt⟩

end Within

/-! ## A client within a stream -/

section Runs

variable {st : Stream} {c : Client}

def start (st : Stream) : Client := ⟨allocate st.bytes, false, []⟩

def Follows (st : Stream) (c : Client) : Prop :=
  ∃ rest after k, At st rest after k c.reader ∧ (0 < k → c.pending = true) ∧
    c.got ++ left rest after = st.payload

theorem Block.bytes_length (b : Block) : 0 < b.bytes.length := by
  rw [Block.bytes, List.length_append, List.length_append, Block.header_length]
  have height : sizeofFixedHeader = 8 := rfl
  omega

theorem length_le_bytes (bs : List Block) : bs.length ≤ (bs.flatMap Block.bytes).length := by
  induction bs with
  | nil => exact Nat.le_refl 0
  | cons b bs ih =>
    have hblock := b.bytes_length
    rw [List.flatMap_cons, List.length_append, List.length_cons]
    omega

variable (st) in
theorem start_step (size : Nat) :
    ∃ c', step size (start st) = some c' ∧ Follows st c' ∧
      c'.reader.channel.length < (start st).reader.channel.length := by
  have hchannel : (start st).reader.channel
      = st.first.bytes ++ st.others.flatMap Block.bytes := List.flatMap_cons
  obtain ⟨r, s', hread, hopen⟩ := readHeaders_spec st.first hchannel
  have hservice : readService (start st).reader = (r, s') := by
    rw [readService,
      if_pos (show (start st).reader.fixedBlockBytesRemaining ≤ 0 from Int.le_refl 0), hread]
  have hsound := st.sound
  rw [List.flatMap_cons] at hsound
  refine ⟨⟨s', r.imageDataPending, []⟩, ?_, ?_, ?_⟩
  · rw [step, if_neg (fun hand => Bool.false_ne_true hand.1), hservice]
    rfl
  · refine ⟨st.first.pieces, st.others, 0, ?_, fun hlt => absurd hlt (Nat.lt_irrefl 0), ?_⟩
    · exact {
        blocks := ⟨[], st.first, rfl, List.suffix_refl _⟩
        channel := hopen.channel
        fixed := hopen.fixed
        inner := by
          show s'.innerBlockBytesRemaining ≤ 0
          rw [hopen.inner]
          split
          · exact Int.le_refl 0
          · exact Int.le_refl 0
        dontDecrement := hopen.dontDecrement
        dataType := hopen.dataType
        simulate := hopen.simulate
        last := hopen.last
        plain := st.plain
        sound := hsound }
    · show [] ++ left st.first.pieces st.others = st.payload
      rw [List.nil_append, left, Stream.payload, Stream.blocks, List.flatMap_cons]
  · have hlength : st.first.header.length = 8 := rfl
    rw [hopen.channel, hchannel, Block.bytes]
    simp only [List.length_append]
    lia

theorem Follows.step (h : Follows st c) (hne : c.reader.channel ≠ []) {size : Nat}
    (hsize : 1 ≤ size) :
    ∃ c', step size c = some c' ∧ Follows st c' ∧
      c'.reader.channel.length < c.reader.channel.length := by
  obtain ⟨rest, after, k, hat, hpending, hgot⟩ := h
  -- between two records, or within one
  rcases Nat.eq_zero_or_pos k with rfl | hk
  · have hinner : c.reader.innerBlockBytesRemaining ≤ 0 := hat.inner
    have hstep : MfpdtfReader.step size c = some { c with
        reader := (readService c.reader).2
        pending := (readService c.reader).1.imageDataPending } :=
      if_neg fun hand => absurd hand.2 (Int.not_lt.mpr hinner)
    rw [hstep]
    by_cases hend : bytesOf rest = []
    · cases after with
      | nil => exact absurd (by rw [hat.channel, hend]; rfl) hne
      | cons b after =>
        obtain ⟨r, s', hread, -, -, -, hat', hleft, hlt⟩ := hat.next_block hend
        rw [hread]
        exact ⟨_, rfl, ⟨b.pieces, after, 0, hat', fun h0 => absurd h0 (Nat.lt_irrefl 0),
          by rw [← hleft]; exact hgot⟩, hlt⟩
    · obtain ⟨r, s', rest', k', hread, -, hpending', hat', hleft, hlt⟩ := hat.next_record hend
      rw [hread]
      exact ⟨_, rfl, ⟨rest', after, k', hat', hpending', by rw [← hleft]; exact hgot⟩, hlt⟩
  · have hinner : c.reader.innerBlockBytesRemaining = k := by
      have := hat.inner
      rwa [if_neg (by lia)] at this
    have hrounds : after.length < c.reader.channel.length + 1 := by
      have hlength := length_le_bytes after
      rw [hat.channel, List.length_append]
      lia
    obtain ⟨data, s', rest', after', hread, hat', hleft, hlt⟩ :=
      hat.read_inner (c := min size k) (n := (size : Int)) (Nat.min_le_right ..) (by lia)
        hrounds (by rw [hinner]; lia)
    refine ⟨{ c with reader := s', got := c.got ++ data }, ?_, ?_, hlt⟩
    · rw [MfpdtfReader.step, if_pos ⟨hpending hk, by lia⟩, hread]
      rfl
    · refine ⟨rest', after', k - min size k, hat', fun _ => hpending hk, ?_⟩
      show c.got ++ data ++ left rest' after' = st.payload
      rw [List.append_assoc, ← hleft, hgot]

theorem Unread.nonneg {channel : List UInt8} {n : Int} (h : Unread st channel n) : 0 ≤ n := by
  obtain ⟨-, rfl⟩ | ⟨-, -, -, rest, -, -, -, rfl⟩ := h
  · exact Int.le_refl 0
  · exact Int.natCast_nonneg _

def Sofar (st : Stream) (c : Client) : Prop :=
  Unread st c.reader.channel c.reader.fixedBlockBytesRemaining ∧ c.got <+: st.payload

theorem Follows.sofar (h : Follows st c) : Sofar st c := by
  obtain ⟨rest, after, k, hat, -, hgot⟩ := h
  exact ⟨hat.unread, _, hgot⟩

theorem start_sofar (st : Stream) : Sofar st (start st) :=
  ⟨.inl ⟨rfl, rfl⟩, List.nil_prefix⟩

theorem Follows.done (h : Follows st c) (hempty : c.reader.channel = []) :
    c.got = st.payload ∧ c.reader.innerBlockBytesRemaining ≤ 0 := by
  obtain ⟨rest, after, k, hat, -, hgot⟩ := h
  have hchannel := hat.channel
  rw [hempty] at hchannel
  obtain ⟨hrest, hafter⟩ := List.append_eq_nil_iff.mp hchannel.symm
  have hlength := length_le_bytes after
  rw [hafter] at hlength
  obtain rfl : after = [] := List.eq_nil_of_length_eq_zero (Nat.le_zero.mp hlength)
  obtain ⟨hzero, hnothing⟩ := Sound.of_empty hrest hat.sound
  obtain rfl : k = 0 := hzero
  refine ⟨?_, hat.inner⟩
  rw [left, payloadOf_append, hnothing] at hgot
  rw [← hgot]
  exact (List.append_nil _).symm

theorem Follows.finish {sizes : Nat → Nat} (hsizes : ∀ n, 1 ≤ sizes n) (n left : Nat)
    (h : Follows st c) (hrun : run sizes (start st) n = some c)
    (hleft : c.reader.channel.length ≤ left) :
    ∃ N c', n ≤ N ∧ run sizes (start st) N = some c' ∧ Follows st c' ∧
      c'.reader.channel = [] ∧
      ∀ i, n ≤ i → i ≤ N → ∃ d, run sizes (start st) i = some d ∧ Follows st d := by
  induction left generalizing n c with
  | zero =>
    refine ⟨n, c, Nat.le_refl n, hrun, h, List.eq_nil_of_length_eq_zero (Nat.le_zero.mp hleft), ?_⟩
    intro i hlow hhigh
    obtain rfl := Nat.le_antisymm hlow hhigh
    exact ⟨c, hrun, h⟩
  | succ left ih =>
    by_cases hempty : c.reader.channel = []
    · refine ⟨n, c, Nat.le_refl n, hrun, h, hempty, ?_⟩
      intro i hlow hhigh
      obtain rfl := Nat.le_antisymm hlow hhigh
      exact ⟨c, hrun, h⟩
    · obtain ⟨c₁, hstep, h₁, hlt⟩ := h.step hempty (hsizes n)
      have hrun₁ : run sizes (start st) (n + 1) = some c₁ := by
        rw [run, hrun]
        exact hstep
      obtain ⟨N, c', hN, hrun', h', hempty', hall⟩ := ih (n + 1) h₁ hrun₁ (by omega)
      refine ⟨N, c', by omega, hrun', h', hempty', fun i hlow hhigh => ?_⟩
      rcases Nat.eq_or_lt_of_le hlow with rfl | hlow
      · exact ⟨c, hrun, h⟩
      · exact hall i hlow hhigh

/-- **The image is read**: for all sizes of the buffers a client gets the bytes of the raster
records, and no others, and what is counted of the block is what has not been read of it. -/
theorem image_read (st : Stream) (sizes : Nat → Nat) (hsizes : ∀ n, 1 ≤ sizes n) :
    ∃ N c, run sizes (start st) N = some c ∧ c.reader.channel = [] ∧
      c.reader.innerBlockBytesRemaining ≤ 0 ∧ c.got = st.payload ∧
      ∀ n ≤ N, ∃ d, run sizes (start st) n = some d ∧
        0 ≤ d.reader.fixedBlockBytesRemaining ∧
        Unread st d.reader.channel d.reader.fixedBlockBytesRemaining ∧ d.got <+: st.payload := by
  obtain ⟨c₁, hstep, h₁, -⟩ := start_step st (sizes 0)
  obtain ⟨N, c, hN, hrun, h, hempty, hall⟩ :=
    h₁.finish hsizes 1 c₁.reader.channel.length hstep (Nat.le_refl _)
  obtain ⟨hgot, hinner⟩ := h.done hempty
  refine ⟨N, c, hrun, hempty, hinner, hgot, fun n hn => ?_⟩
  rcases Nat.eq_zero_or_pos n with rfl | hpos
  · exact ⟨start st, rfl, Int.le_refl 0, start_sofar st⟩
  · obtain ⟨d, hd, hfollows⟩ := hall n hpos hn
    exact ⟨d, hd, hfollows.sofar.1.nonneg, hfollows.sofar⟩

def twoBlocks : Stream where
  first := ⟨0, [5], [.raster 0 2 (by decide), .data [7]], by decide, by decide⟩
  others := [⟨1, [], [.data [8], .endPage (List.replicate 11 0) rfl], by decide, by decide⟩]
  plain := fun b hb => by rw [List.mem_singleton.mp hb]
  sound := ⟨rfl, by decide, by decide, rfl, rfl⟩

theorem image_read_two :
    ∃ N c, run (fun _ => 1) (start twoBlocks) N = some c ∧ c.reader.channel = [] ∧
      c.reader.innerBlockBytesRemaining ≤ 0 ∧ c.got = twoBlocks.payload ∧
      ∀ n ≤ N, ∃ d, run (fun _ => 1) (start twoBlocks) n = some d ∧
        0 ≤ d.reader.fixedBlockBytesRemaining ∧
        Unread twoBlocks d.reader.channel d.reader.fixedBlockBytesRemaining ∧
        d.got <+: twoBlocks.payload :=
  image_read twoBlocks (fun _ => 1) fun _ => Nat.le_refl 1

end Runs

end Hplip.Sane.MfpdtfReader
