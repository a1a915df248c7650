import Mathlib.Tactic.IntervalCases
import Hplip.Ip.JpegHeader

/-!
# What a JPEG header must be

The parsers of the header fault on some bytes, and accept headers that the decoder cannot
work with. Here is a condition on the segments for which neither happens.
-/

namespace Hplip.Ip.JpegHdr

open Faults JpegEnc JpegDec

/-! ## What the decoder needs -/

/-- A table selector is one of four and names a table that a marker defined. -/
def Names {α : Type} (tbls : Nat → Option α) (i : Nat) : Prop := i < 4 ∧ (tbls i).isSome

structure Usable (g : Header) : Prop where
  comps : 1 ≤ g.numComps ∧ g.numComps ≤ 4
  factors : ∀ c < g.numComps, (1 ≤ g.horizSampFacs.getD c 0 ∧ g.horizSampFacs.getD c 0 ≤ 4) ∧
    (1 ≤ g.vertSampFacs.getD c 0 ∧ g.vertSampFacs.getD c 0 ≤ 4)
  max : 1 ≤ g.maxHorizSampFac ∧ 1 ≤ g.maxVertSampFac
  quant : ∀ c < g.numComps, Names g.quantTbls (g.whichQuantTbl.getD c 0)
  dc : ∀ c < g.numComps, Names g.dcTbls (g.whichDcTbl.getD c 0)
  ac : ∀ c < g.numComps, Names g.acTbls (g.whichAcTbl.getD c 0)

/-! ## What the segments must be -/

section

variable (buf : List UInt8)

def uintAt (i : Nat) : Nat := byteAt buf i * 256 + byteAt buf (i + 1)

/-- `n` bytes from a position on. -/
def bytesAt : Nat → Nat → List UInt8
  | _, 0 => []
  | i, n + 1 => (byteAt buf i).toUInt8 :: bytesAt (i + 1) n

/-- There are `n` bytes from a position on. -/
def Has (i n : Nat) : Prop := i + n ≤ buf.length

instance (i n : Nat) : Decidable (Has buf i n) := inferInstanceAs (Decidable (_ ≤ _))

def MarkerOk (i : Nat) : Prop := ∃ q, i ≤ q ∧ q < buf.length ∧ byteAt buf q ≠ 0xff

/-- A short header with one to four components, whose factors are one to four. The selectors
of a fourth component are not in it. -/
def ShortOk (g : Header) : Prop :=
  let n := byteAt buf (g.next + 11)
  Has buf g.next 18 ∧ (1 ≤ n ∧ n ≤ 4) ∧
    (∀ c < n, (1 ≤ (parseFactors (uintAt buf (g.next + 12))).1.getD c 0 ∧
        (parseFactors (uintAt buf (g.next + 12))).1.getD c 0 ≤ 4) ∧
      (1 ≤ (parseFactors (uintAt buf (g.next + 14))).1.getD c 0 ∧
        (parseFactors (uintAt buf (g.next + 14))).1.getD c 0 ≤ 4)) ∧
    (n = 4 →
      (g.whichQuantTbl.getD 3 0 < 2 ∨ Names g.quantTbls (g.whichQuantTbl.getD 3 0)) ∧
      (g.whichDcTbl.getD 3 0 < 2 ∨ Names g.dcTbls (g.whichDcTbl.getD 3 0)) ∧
      (g.whichAcTbl.getD 3 0 < 2 ∨ Names g.acTbls (g.whichAcTbl.getD 3 0)))

/-- An application segment: the bytes that are read of each kind of it. -/
def AppOk (marker : Nat) (g : Header) : Prop :=
  let len := uintAt buf g.next
  let id1 := byteAt buf (g.next + 2)
  let id2 := byteAt buf (g.next + 3)
  let id3 := byteAt buf (g.next + 4)
  Has buf g.next 2 ∧ (5 < len → Has buf g.next 5 ∧
    if marker = 0xe1 ∧ id1 = 0x47 ∧ id2 = 0x33 ∧ id3 = 0x46 then
      len = 12 → Has buf g.next 12
    else if marker = 0xe0 ∧ (id1 = 0x4a ∨ id1 = 0x6a) ∧ (id2 = 0x46 ∨ id2 = 0x66) ∧
        (id3 = 0x49 ∨ id3 = 0x69) then
      len = 16 → Has buf g.next 14
    else if marker = 0xe1 ∧ len = 18 then ShortOk buf g
    else True)

/-- A frame header: its first fields, and the components if those are accepted. -/
def SofOk (marker : Nat) (i : Nat) : Prop :=
  Has buf i 8 ∧ (uintAt buf i = 8 + 3 * byteAt buf (i + 7) →
    (1 ≤ byteAt buf (i + 7) ∧ byteAt buf (i + 7) ≤ 4) → (marker = 0xc0 ∨ marker = 0xc1) →
    byteAt buf (i + 2) = 8 → Has buf i (8 + 3 * byteAt buf (i + 7)))

def DqtOk (i len : Nat) : Prop :=
  if 65 ≤ len then
    Has buf i 1 ∧ (byteAt buf i / 4 = 0 → Has buf i 65 ∧ DqtOk (i + 65) (len - 65))
  else True
termination_by len

/-- The tables of a DHT segment: one of the four identifiers, and codes that fit the arrays. -/
def DhtOk (i len : Nat) : Prop :=
  if 17 < len then
    let counts := bytesAt buf (i + 1) 16
    Has buf i 17 ∧ (numCodes counts ≤ len - 17 →
      Has buf i (17 + numCodes counts) ∧ byteAt buf i % 16 < 4 ∧
      TableFits counts (if byteAt buf i / 16 ≠ 0 then acTblIndexLen else dcTblIndexLen) ∧
      DhtOk (i + 17 + numCodes counts) (len - 17 - numCodes counts))
  else True
termination_by len
decreasing_by omega

/-- A scan header: a frame came before it with factors of one to four, and all selectors name
tables that were defined. -/
def SosOk (g : Header) : Prop :=
  Has buf g.next 2 ∧ (uintAt buf g.next = 6 + 2 * g.numComps →
    Has buf g.next (6 + 2 * g.numComps) ∧ 1 ≤ g.numComps ∧
    ∀ c < g.numComps,
      ((1 ≤ g.horizSampFacs.getD c 0 ∧ g.horizSampFacs.getD c 0 ≤ 4) ∧
        (1 ≤ g.vertSampFacs.getD c 0 ∧ g.vertSampFacs.getD c 0 ≤ 4)) ∧
      Names g.quantTbls (g.whichQuantTbl.getD c 0) ∧
      Names g.dcTbls (byteAt buf (g.next + 4 + 2 * c) / 16) ∧
      Names g.acTbls (byteAt buf (g.next + 4 + 2 * c) % 16))

def SegmentOk (marker : Nat) (g : Header) : Prop :=
  if 0xe0 ≤ marker ∧ marker ≤ 0xef then AppOk buf marker g
  else if IsFlushed marker then Has buf g.next 2
  else if IsSof marker then SofOk buf marker g.next
  else if marker = 0xc4 then
    Has buf g.next 2 ∧ DhtOk buf (g.next + 2) (uintAt buf g.next - 2)
  else if marker = 0xdb then
    Has buf g.next 2 ∧ DqtOk buf (g.next + 2) (uintAt buf g.next - 2)
  else if marker = 0xdd then Has buf g.next 2 ∧ (uintAt buf g.next = 4 → Has buf g.next 4)
  else if marker = 0xda then SosOk buf g
  else if marker = 0xdc then Has buf g.next 4
  else True

def StepOk (g : Header) : Prop :=
  MarkerOk buf g.next ∧ ∀ marker g', marGet buf g = .ok (marker, g') → SegmentOk buf marker g'

def RunOk : Nat → Header → Prop
  | 0, _ => True
  | rounds + 1, g =>
    StepOk buf g ∧ ∀ g', headerStep buf g = .ok (true, g') → RunOk rounds g'

/-- The bytes of a header: it begins with a marker, and each round of the run that follows
finds what it needs. -/
def HeaderOk (fDenali : Bool) : Prop :=
  MarkerOk buf 0 ∧ ∀ g, marGet buf (openXform fDenali) = .ok (0xd8, g) →
    RunOk buf (buf.length + 1) g

abbrev seek (g : Header) (n : Nat) : Header := { g with next := n }

@[simp] theorem seek_next (g : Header) (n : Nat) : (seek g n).next = n := rfl

@[simp] theorem seek_seek (g : Header) (n m : Nat) : seek (seek g n) m = seek g m := rfl

theorem DhtOk.table {buf : List UInt8} {i len : Nat} (h : DhtOk buf i len) (hmore : 17 < len) :
    Has buf i 17 ∧ (numCodes (bytesAt buf (i + 1) 16) ≤ len - 17 →
      Has buf i (17 + numCodes (bytesAt buf (i + 1) 16)) ∧ byteAt buf i % 16 < 4 ∧
      TableFits (bytesAt buf (i + 1) 16)
        (if byteAt buf i / 16 ≠ 0 then acTblIndexLen else dcTblIndexLen) ∧
      DhtOk buf (i + 17 + numCodes (bytesAt buf (i + 1) 16))
        (len - 17 - numCodes (bytesAt buf (i + 1) 16))) := by
  rw [DhtOk, if_pos hmore] at h
  exact h

/-! ## The primitives -/

variable {buf} {g : Header}

theorem meets_checkIndex {i size : Nat} {Q : Unit → Header → Prop} :
    Meets (checkIndex i size) Q g ↔ i < size ∧ Q () g := by
  rw [checkIndex, meets_ite]
  constructor
  · rintro ⟨hin, hout⟩
    by_cases h : i < size
    · exact ⟨h, hin h⟩
    · exact (hout h).elim
  · rintro ⟨h, hQ⟩
    exact ⟨fun _ => hQ, fun hno => absurd h hno⟩

theorem meets_readByte {Q : Nat → Header → Prop} :
    Meets (readByte buf) Q g ↔
      g.next < buf.length ∧ Q (byteAt buf g.next) (seek g (g.next + 1)) := by
  rw [readByte, meets_bind, meets_get, meets_ite]
  constructor
  · rintro ⟨hin, hout⟩
    by_cases h : g.next < buf.length
    · exact ⟨h, hin h⟩
    · exact (hout h).elim
  · rintro ⟨h, hQ⟩
    exact ⟨fun _ => hQ, fun hno => absurd h hno⟩

theorem meets_readUint {Q : Nat → Header → Prop} :
    Meets (readUint buf) Q g ↔
      Has buf g.next 2 ∧ Q (uintAt buf g.next) (seek g (g.next + 2)) := by
  rw [readUint, meets_bind, meets_readByte]
  simp only [meets_bind, meets_readByte, meets_pure]
  constructor
  · rintro ⟨-, h, hQ⟩
    exact ⟨h, hQ⟩
  · rintro ⟨h, hQ⟩
    exact ⟨Nat.lt_of_succ_lt h, h, hQ⟩

theorem meets_readBytes {n : Nat} {Q : List UInt8 → Header → Prop} (h : Has buf g.next n)
    (hQ : Q (bytesAt buf g.next n) (seek g (g.next + n))) :
    Meets (readBytes buf n) Q g := by
  induction n generalizing g Q with
  | zero => exact hQ
  | succ n ih =>
    rw [readBytes, meets_bind, meets_readByte]
    have hlt : g.next < buf.length := by
      rw [Has] at h
      omega
    refine ⟨hlt, ?_⟩
    rw [meets_bind]
    refine @ih (seek g (g.next + 1)) _ ?_ ?_
    · show g.next + 1 + n ≤ buf.length
      rw [Has] at h
      omega
    · rw [meets_pure]
      show Q _ (seek g (g.next + 1 + n))
      rw [show g.next + 1 + n = g.next + (n + 1) by omega]
      exact hQ

theorem meets_readSkipForward {n : Nat} {Q : Unit → Header → Prop}
    (hQ : Q () (seek g (g.next + n))) : Meets (readSkipForward n) Q g := by
  rw [readSkipForward, meets_ite]
  exact ⟨fun _ => trivial, fun _ => hQ⟩

theorem meets_readSkipBackward {n : Nat} {Q : Unit → Header → Prop} :
    Meets (readSkipBackward n) Q g ↔ Q () (seek g (g.next - n)) := Iff.rfl

theorem marGetLoop_meets {rounds : Nat} {gotFf : Bool} (h : MarkerOk buf g.next)
    (hrounds : buf.length < rounds + g.next) :
    Meets (marGetLoop buf rounds gotFf)
      (fun _ g' => ∃ n, g.next < n ∧ g' = seek g n) g := by
  induction rounds generalizing g gotFf with
  | zero =>
    obtain ⟨q, hq, hlt, -⟩ := h
    omega
  | succ rounds ih =>
    obtain ⟨q, hq, hlt, hne⟩ := h
    rw [marGetLoop, meets_bind, meets_readByte]
    refine ⟨by omega, ?_⟩
    rw [meets_ite, meets_ite]
    refine ⟨fun hff => ?_, fun _ => ⟨fun _ => trivial, fun _ =>
      ⟨g.next + 1, Nat.lt_succ_self _, rfl⟩⟩⟩
    have hmore : g.next ≠ q := by
      rintro rfl
      exact hne hff
    have hrest := @ih (seek g (g.next + 1)) true
      ⟨q, by show g.next + 1 ≤ q; omega, hlt, hne⟩
      (by show buf.length < rounds + (g.next + 1); omega)
    refine hrest.mono fun _ g' hg' => ?_
    obtain ⟨n, hn, rfl⟩ := hg'
    have hn : g.next + 1 < n := hn
    exact ⟨n, by omega, rfl⟩

theorem marGet_meets (h : MarkerOk buf g.next) :
    Meets (marGet buf) (fun _ g' => ∃ n, g.next < n ∧ g' = seek g n) g :=
  marGetLoop_meets h (by omega)

/-! ## The segments -/

structure Inv (g : Header) : Prop where
  comps : g.numComps ≤ 4
  max : 1 ≤ g.numComps → 1 ≤ g.maxHorizSampFac ∧ 1 ≤ g.maxVertSampFac
  horiz : g.horizSampFacs.length = 4
  vert : g.vertSampFacs.length = 4
  quant : g.whichQuantTbl.length = 4
  dc : g.whichDcTbl.length = 4
  ac : g.whichAcTbl.length = 4
  short : g.gotShortHeader = false

/-- A segment that does not end the header. -/
def Kept (g : Header) (_ : Unit) (g' : Header) : Prop := g.next ≤ g'.next ∧ Inv g'

theorem Inv.withNext (h : Inv g) (n : Nat) : Inv (seek g n) :=
  ⟨h.comps, h.max, h.horiz, h.vert, h.quant, h.dc, h.ac, h.short⟩

theorem Inv.withFields (h : Inv g) (n : Nat) (traits : Traits) (restartInterval : Nat)
    (fColorFax : Bool) (quantTbls : Nat → Option (List Nat)) :
    Inv { g with next := n, traits, restartInterval, fColorFax, quantTbls } :=
  ⟨h.comps, h.max, h.horiz, h.vert, h.quant, h.dc, h.ac, h.short⟩

theorem marFlush_meets (hinv : Inv g) (h : Has buf g.next 2) :
    Meets (marFlush buf) (Kept g) g := by
  rw [marFlush, meets_bind, meets_readUint]
  refine ⟨h, meets_readSkipForward ⟨?_, hinv.withNext _⟩⟩
  show g.next ≤ g.next + 2 + _
  omega

theorem marParseDnl_meets (hinv : Inv g) (h : Has buf g.next 4) :
    Meets (marParseDnl buf) (Kept g) g := by
  rw [Has] at h
  rw [marParseDnl, meets_bind, meets_readUint, meets_bind, meets_readUint, meets_ite]
  refine ⟨by rw [Has]; omega, by show g.next + 2 + 2 ≤ _; omega, fun _ => trivial, fun _ => ?_⟩
  refine ⟨?_, hinv.withFields _ _ _ _ _⟩
  show g.next ≤ g.next + 2 + 2
  omega

theorem marParseDri_meets (hinv : Inv g) (h : Has buf g.next 2)
    (hmore : uintAt buf g.next = 4 → Has buf g.next 4) :
    Meets (marParseDri buf) (Kept g) g := by
  rw [marParseDri, meets_bind, meets_readUint, meets_ite]
  refine ⟨h, fun _ => trivial, fun hlen => ?_⟩
  have hfour := hmore (not_not.mp hlen)
  rw [Has] at hfour
  rw [meets_bind, meets_readUint]
  refine ⟨by show g.next + 2 + 2 ≤ _; omega, ?_⟩
  refine ⟨?_, hinv.withFields _ _ _ _ _⟩
  show g.next ≤ g.next + 2 + 2
  omega

theorem Kept.trans {g₁ g₂ : Header} (h : g.next ≤ g₁.next) (h' : Kept g₁ () g₂) : Kept g () g₂ :=
  ⟨Nat.le_trans h h'.1, h'.2⟩

theorem dqtLoop_meets (len : Nat) (hinv : Inv g) (h : DqtOk buf g.next len) :
    Meets (dqtLoop buf len) (Kept g) g := by
  induction len using Nat.strong_induction_on generalizing g with
  | _ len ih =>
    rw [dqtLoop, meets_ite]
    rw [DqtOk] at h
    refine ⟨fun hmore => ?_, fun _ => ?_⟩
    · rw [if_pos hmore] at h
      rw [meets_bind, meets_readByte]
      refine ⟨h.1, ?_⟩
      rw [meets_ite]
      refine ⟨fun _ => trivial, fun hpt => ?_⟩
      obtain ⟨hhas, hrest⟩ := h.2 (not_not.mp hpt)
      rw [Has] at hhas
      rw [meets_bind]
      refine meets_readBytes (by show g.next + 1 + 64 ≤ _; lia) ?_
      rw [meets_bind, meets_modify]
      refine (ih (len - 65) (by lia) ?_ ?_).mono fun _ g' hg' => ?_
      · exact hinv.withFields _ _ _ _ _
      · show DqtOk buf (g.next + 1 + 64) (len - 65)
        exact hrest
      · refine Kept.trans ?_ hg'
        show g.next ≤ g.next + 1 + 64
        lia
    · rw [meets_ite]
      exact ⟨fun _ => trivial, fun _ => ⟨Nat.le_refl _, hinv⟩⟩

theorem marParseDqt_meets (hinv : Inv g) (h : Has buf g.next 2)
    (hrest : DqtOk buf (g.next + 2) (uintAt buf g.next - 2)) :
    Meets (marParseDqt buf) (Kept g) g := by
  rw [marParseDqt, meets_bind, meets_readUint, meets_ite]
  refine ⟨h, fun _ => trivial, fun _ => ?_⟩
  refine (dqtLoop_meets _ (hinv.withNext _) hrest).mono fun _ g' hg' => Kept.trans ?_ hg'
  show g.next ≤ g.next + 2
  omega

def withTable (g : Header) (ac : Bool) (id : Nat) (tbl : HuffTbl) : Header :=
  if ac then { g with acTbls := fun i => if i = id then some tbl else g.acTbls i }
  else { g with dcTbls := fun i => if i = id then some tbl else g.dcTbls i }

theorem meets_huffDefineTable {ac : Bool} {id : Nat} {counts values : List UInt8}
    {Q : Unit → Header → Prop} (hid : id < 4)
    (hfits : TableFits counts (if ac then acTblIndexLen else dcTblIndexLen))
    (hQ : Q () (withTable g ac id
      (calcTable counts values (if ac then acTblIndexLen else dcTblIndexLen)))) :
    Meets (huffDefineTable ac id counts values) Q g := by
  rw [huffDefineTable, meets_bind, meets_checkIndex, meets_ite]
  exact ⟨hid, fun _ => hQ, fun hno => absurd hfits hno⟩

theorem withTable_dc (id : Nat) (tbl : HuffTbl) : withTable g false id tbl
    = { g with dcTbls := fun i => if i = id then some tbl else g.dcTbls i } := rfl

theorem withTable_ac (id : Nat) (tbl : HuffTbl) : withTable g true id tbl
    = { g with acTbls := fun i => if i = id then some tbl else g.acTbls i } := rfl

theorem Inv.withTable (h : Inv g) (ac : Bool) (id : Nat) (tbl : HuffTbl) :
    Inv (withTable g ac id tbl) := by
  cases ac <;>
    exact ⟨h.comps, h.max, h.horiz, h.vert, h.quant, h.dc, h.ac, h.short⟩

@[simp] theorem withTable_next (ac : Bool) (id : Nat) (tbl : HuffTbl) :
    (withTable g ac id tbl).next = g.next := by
  cases ac <;> rfl

theorem dhtLoop_meets (len : Nat) (hinv : Inv g) (h : DhtOk buf g.next len) :
    Meets (dhtLoop buf len) (Kept g) g := by
  induction len using Nat.strong_induction_on generalizing g with
  | _ len ih =>
    rw [dhtLoop, meets_ite]
    refine ⟨fun hmore => ?_, fun _ => ?_⟩
    · obtain ⟨hhead, htable⟩ := h.table hmore
      rw [Has] at hhead
      rw [meets_bind, meets_readByte]
      refine ⟨by lia, ?_⟩
      rw [meets_bind]
      refine meets_readBytes (by show g.next + 1 + 16 ≤ _; lia) ?_
      simp only [seek_seek]
      rw [meets_ite]
      refine ⟨fun _ => trivial, fun hfew => ?_⟩
      have htab := htable (Nat.le_of_not_lt hfew)
      generalize hN : numCodes (bytesAt buf (g.next + 1) 16) = N at htab hfew ⊢
      obtain ⟨hhas, hid, hfits, hrest⟩ := htab
      have hmost : N ≤ 256 := hN ▸ hfits.1.2
      rw [Has] at hhas
      rw [meets_bind]
      refine meets_readBytes (by show g.next + 1 + 16 + N ≤ _; lia) ?_
      simp only [seek_seek]
      rw [meets_ite]
      refine ⟨fun hmany => absurd hmany (Nat.not_lt.mpr hmost), fun _ => ?_⟩
      rw [meets_bind]
      refine meets_huffDefineTable hid (by simpa using hfits) ?_
      refine (ih _ ?_ ((hinv.withNext _).withTable _ _ _) ?_).mono fun _ g' hg' => ?_
      · lia
      · rw [withTable_next]
        exact hrest
      · refine Kept.trans ?_ hg'
        simp only [withTable_next]
        lia
    · rw [meets_ite]
      exact ⟨fun _ => trivial, fun _ => ⟨Nat.le_refl _, hinv⟩⟩

theorem marParseDht_meets (hinv : Inv g) (h : Has buf g.next 2)
    (hrest : DhtOk buf (g.next + 2) (uintAt buf g.next - 2)) :
    Meets (marParseDht buf) (Kept g) g := by
  rw [marParseDht, meets_bind, meets_readUint, meets_ite]
  refine ⟨h, fun _ => trivial, fun _ => ?_⟩
  refine (dhtLoop_meets _ (hinv.withNext _) hrest).mono fun _ g' hg' => Kept.trans ?_ hg'
  show g.next ≤ g.next + 2
  omega

theorem sofComps_meets (n comp : Nat) (h : Has buf g.next (3 * n)) (hfit : n + comp ≤ 4)
    (hinv : Inv g) (hmax : 1 ≤ g.maxHorizSampFac ∧ 1 ≤ g.maxVertSampFac) :
    Meets (sofComps buf n comp) (Kept g) g := by
  induction n generalizing g comp with
  | zero => exact ⟨Nat.le_refl _, hinv⟩
  | succ n ih =>
    rw [Has] at h
    rw [sofComps, meets_bind, meets_readByte]
    refine ⟨by lia, ?_⟩
    rw [meets_bind, meets_readByte]
    refine ⟨by rw [seek_next]; lia, ?_⟩
    rw [meets_bind, meets_readByte]
    refine ⟨by rw [seek_next, seek_next]; lia, ?_⟩
    rw [meets_bind, meets_checkIndex]
    refine ⟨by lia, ?_⟩
    rw [meets_bind, meets_modify]
    -- the greatest factors only grow
    have hgrows : 1 ≤ max g.maxHorizSampFac (byteAt buf (g.next + 1) / 16) ∧
        1 ≤ max g.maxVertSampFac (byteAt buf (g.next + 1) % 16) :=
      ⟨Nat.le_trans hmax.1 (Nat.le_max_left _ _), Nat.le_trans hmax.2 (Nat.le_max_left _ _)⟩
    refine (ih (comp + 1) ?_ (by lia) ?_ ?_).mono fun _ g' hg' => Kept.trans ?_ hg'
    · show g.next + 1 + 1 + 1 + 3 * n ≤ _
      lia
    · exact ⟨hinv.comps, fun _ => hgrows, (List.length_set ..).trans hinv.horiz,
        (List.length_set ..).trans hinv.vert, (List.length_set ..).trans hinv.quant, hinv.dc,
        hinv.ac, hinv.short⟩
    · exact hgrows
    · show g.next ≤ g.next + 1 + 1 + 1
      lia

theorem marParseSof_meets (marker : Nat) (hinv : Inv g) (h : SofOk buf marker g.next) :
    Meets (marParseSof buf marker) (Kept g) g := by
  obtain ⟨hhead, hcomps⟩ := h
  rw [Has] at hhead
  rw [marParseSof, meets_bind, meets_readUint]
  refine ⟨by rw [Has]; lia, ?_⟩
  rw [meets_bind, meets_readByte]
  refine ⟨by show g.next + 2 < _; lia, ?_⟩
  rw [meets_bind, meets_modify, meets_bind, meets_readUint]
  refine ⟨by show g.next + 2 + 1 + 2 ≤ _; lia, ?_⟩
  rw [meets_bind, meets_readUint]
  refine ⟨by show g.next + 2 + 1 + 2 + 2 ≤ _; lia, ?_⟩
  rw [meets_bind, meets_readByte]
  refine ⟨by show g.next + 2 + 1 + 2 + 2 < _; lia, ?_⟩
  rw [meets_bind, meets_modify, meets_ite]
  refine ⟨fun _ => trivial, fun hlen => ?_⟩
  rw [meets_ite]
  refine ⟨fun _ => trivial, fun hkind => ?_⟩
  rw [meets_bind, meets_modify]
  -- the number of components, seven bytes behind the length
  have hcount : g.next + 2 + 1 + 2 + 2 = g.next + 7 := by lia
  simp only [hcount] at hlen hkind ⊢
  rw [not_or, not_not] at hlen
  rw [not_or, not_or, not_and_or, not_not, not_not, not_not, Nat.not_lt] at hkind
  have hall := hcomps hlen.1 ⟨Nat.one_le_iff_ne_zero.mpr hlen.2, hkind.2.2⟩ hkind.1 hkind.2.1
  rw [Has] at hall
  refine (sofComps_meets _ 0 ?_ hkind.2.2 ?_ ⟨Nat.le_refl 1, Nat.le_refl 1⟩).mono
    fun _ g' hg' => Kept.trans ?_ hg'
  · show g.next + 7 + 1 + 3 * byteAt buf (g.next + 7) ≤ buf.length
    lia
  · exact ⟨hkind.2.2, fun _ => ⟨Nat.le_refl 1, Nat.le_refl 1⟩, hinv.horiz, hinv.vert, hinv.quant,
      hinv.dc, hinv.ac, hinv.short⟩
  · show g.next ≤ g.next + 7 + 1
    lia

theorem getD_set_self {l : List Nat} {c v : Nat} (h : c < l.length) : (l.set c v).getD c 0 = v := by
  rw [List.getD_eq_getElem?_getD, List.getElem?_set, if_pos rfl, if_pos h]
  rfl

theorem getD_set_of_ne {l : List Nat} {c d v : Nat} (h : c ≠ d) :
    (l.set c v).getD d 0 = l.getD d 0 := by
  rw [List.getD_eq_getElem?_getD, List.getElem?_set, if_neg h, ← List.getD_eq_getElem?_getD]

theorem sosComps_meets (n comp : Nat) (h : Has buf g.next (2 * n)) (hfit : n + comp ≤ 4)
    (hdc : g.whichDcTbl.length = 4) (hac : g.whichAcTbl.length = 4) :
    Meets (sosComps buf n comp)
      (fun _ g' => ∃ dcs acs, g' = { g with
          next := g.next + 2 * n, whichDcTbl := dcs, whichAcTbl := acs } ∧
        (∀ c < comp, dcs.getD c 0 = g.whichDcTbl.getD c 0 ∧
          acs.getD c 0 = g.whichAcTbl.getD c 0) ∧
        ∀ k < n, dcs.getD (comp + k) 0 = byteAt buf (g.next + 2 * k + 1) / 16 ∧
          acs.getD (comp + k) 0 = byteAt buf (g.next + 2 * k + 1) % 16) g := by
  induction n generalizing g comp with
  | zero =>
    exact ⟨g.whichDcTbl, g.whichAcTbl, rfl, fun _ _ => ⟨rfl, rfl⟩,
      fun k hk => absurd hk (Nat.not_lt_zero k)⟩
  | succ n ih =>
    rw [Has] at h
    rw [sosComps, meets_bind, meets_readByte]
    refine ⟨by lia, ?_⟩
    rw [meets_bind, meets_readByte]
    refine ⟨by show g.next + 1 < _; lia, ?_⟩
    rw [meets_bind, meets_checkIndex]
    refine ⟨by lia, ?_⟩
    rw [meets_bind, meets_modify]
    refine (ih (comp + 1) ?_ (by lia) ?_ ?_).mono fun _ g' hg' => ?_
    · show g.next + 1 + 1 + 2 * n ≤ _
      lia
    · exact (List.length_set ..).trans hdc
    · exact (List.length_set ..).trans hac
    · obtain ⟨dcs, acs, rfl, hlow, hhigh⟩ := hg'
      have hcomp := hlow comp (Nat.lt_succ_self comp)
      dsimp only at hlow hhigh hcomp
      rw [getD_set_self (by lia), getD_set_self (by lia)] at hcomp
      refine ⟨dcs, acs, ?_, fun c hc => ?_, fun k hk => ?_⟩
      · rw [show g.next + 1 + 1 + 2 * n = g.next + 2 * (n + 1) by lia]
      · have hkeep := hlow c (Nat.lt_succ_of_lt hc)
        rwa [getD_set_of_ne (by lia), getD_set_of_ne (by lia)] at hkeep
      · rcases k with _ | k
        · exact hcomp
        · have hnext := hhigh k (by lia)
          rw [show comp + (k + 1) = comp + 1 + k by lia,
            show g.next + 2 * (k + 1) + 1 = g.next + 1 + 1 + 2 * k + 1 by lia]
          exact hnext

theorem marParseSos_meets (hinv : Inv g) (h : SosOk buf g) :
    Meets (marParseSos buf) (fun _ g' => g.next ≤ g'.next ∧ Usable g') g := by
  obtain ⟨hhead, hscan⟩ := h
  rw [marParseSos, meets_bind, meets_readUint]
  refine ⟨hhead, ?_⟩
  rw [meets_bind, meets_get, meets_ite]
  refine ⟨fun _ => trivial, fun hlen => ?_⟩
  obtain ⟨hhas, hpos, hcomps⟩ := hscan (not_not.mp hlen)
  have hfour := hinv.comps
  rw [Has] at hhas
  rw [meets_bind, meets_readByte]
  refine ⟨by show g.next + 2 < _; lia, ?_⟩
  rw [meets_bind]
  refine (sosComps_meets g.numComps 0 ?_ hfour ?_ ?_).mono fun _ g' hg' => ?_
  · show g.next + 2 + 1 + 2 * g.numComps ≤ buf.length
    lia
  · exact hinv.dc
  · exact hinv.ac
  obtain ⟨dcs, acs, rfl, -, hselect⟩ := hg'
  rw [meets_bind]
  refine meets_readBytes (by show g.next + 2 + 1 + 2 * g.numComps + 3 ≤ _; lia) ?_
  rw [meets_pure]
  have hbyte : ∀ c, g.next + 2 + 1 + 2 * c + 1 = g.next + 4 + 2 * c := fun c => by lia
  refine ⟨?_, ⟨hpos, hfour⟩, fun c hc => (hcomps c hc).1, hinv.max hpos,
    fun c hc => (hcomps c hc).2.1, fun c hc => ?_, fun c hc => ?_⟩
  · show g.next ≤ g.next + 2 + 1 + 2 * g.numComps + 3
    lia
  · have hdc := (hselect c hc).1
    dsimp only at hdc ⊢
    rw [Nat.zero_add, hbyte] at hdc
    rw [hdc]
    exact (hcomps c hc).2.2.1
  · have hac := (hselect c hc).2
    dsimp only at hac ⊢
    rw [Nat.zero_add, hbyte] at hac
    rw [hac]
    exact (hcomps c hc).2.2.2

/-! ## Application segments -/

/-- Whether the header ends here. -/
def Ends (marker : Nat) (g : Header) : Prop := marker = 0xda ∨ g.gotShortHeader = true

def Parsed (marker : Nat) (g : Header) (_ : Unit) (g' : Header) : Prop :=
  g.next ≤ g'.next ∧ (Ends marker g' → Usable g') ∧ (¬ Ends marker g' → Inv g')

theorem Kept.parsed {marker : Nat} {g' : Header} (h : Kept g () g') (hm : marker ≠ 0xda) :
    Parsed marker g () g' := by
  refine ⟨h.1, fun hends => ?_, fun _ => h.2⟩
  rcases hends with hda | hshort
  · exact absurd hda hm
  · exact absurd (h.2.short.symm.trans hshort) Bool.false_ne_true

theorem parseAppJfif_meets (hinv : Inv g) (h : Has buf g.next 5)
    (hmore : uintAt buf g.next = 16 → Has buf g.next 14) :
    Meets (parseAppJfif buf) (Kept g) g := by
  rw [Has] at h
  rw [parseAppJfif, meets_bind, meets_readUint]
  refine ⟨by rw [Has]; lia, ?_⟩
  rw [meets_bind, meets_readByte]
  refine ⟨by show g.next + 2 < _; lia, ?_⟩
  rw [meets_ite]
  refine ⟨fun _ => meets_readSkipForward ⟨?_, hinv.withNext _⟩, fun hjfif => ?_⟩
  · show g.next ≤ g.next + 2 + 1 + _
    lia
  · have hhas := hmore (not_not.mp hjfif).1
    rw [Has] at hhas
    rw [meets_bind]
    refine meets_readSkipForward ?_
    rw [meets_bind, meets_readByte]
    refine ⟨by show g.next + 2 + 1 + 6 < _; lia, ?_⟩
    rw [meets_bind, meets_readUint]
    refine ⟨by show g.next + 2 + 1 + 6 + 1 + 2 ≤ _; lia, ?_⟩
    rw [meets_bind, meets_readUint]
    refine ⟨by show g.next + 2 + 1 + 6 + 1 + 2 + 2 ≤ _; lia, ?_⟩
    rw [meets_bind]
    refine meets_readSkipForward ?_
    rw [meets_ite]
    have hnext : g.next ≤ g.next + 2 + 1 + 6 + 1 + 2 + 2 + 2 := by lia
    exact ⟨fun _ => ⟨hnext, hinv.withFields _ _ _ _ _⟩, fun _ => ⟨hnext, hinv.withNext _⟩⟩

theorem parseAppG3fax_meets (hinv : Inv g) (h : Has buf g.next 5)
    (hmore : uintAt buf g.next = 12 → Has buf g.next 12) :
    Meets (parseAppG3fax buf) (Kept g) g := by
  rw [Has] at h
  rw [parseAppG3fax, meets_bind, meets_readUint]
  refine ⟨by rw [Has]; omega, ?_⟩
  rw [meets_ite]
  refine ⟨fun _ => meets_readSkipForward ⟨?_, hinv.withNext _⟩, fun hlen => ?_⟩
  · show g.next ≤ g.next + 2 + _
    omega
  · have hhas := hmore (not_not.mp hlen)
    rw [Has] at hhas
    rw [meets_bind]
    refine meets_readBytes (by show g.next + 2 + 8 ≤ _; omega) ?_
    rw [meets_bind, meets_readUint]
    refine ⟨by show g.next + 2 + 8 + 2 ≤ _; omega, ?_⟩
    rw [meets_ite]
    have hnext : g.next ≤ g.next + 2 + 8 + 2 := by omega
    exact ⟨fun _ => ⟨hnext, hinv.withFields _ _ _ _ _⟩, fun _ => ⟨hnext, hinv.withNext _⟩⟩

theorem default_fits : TableFits lumDCCounts dcTblIndexLen ∧
    TableFits lumACCounts acTblIndexLen ∧ TableFits lumACCountsDenali acTblIndexLen ∧
    TableFits chromDCCounts dcTblIndexLen ∧ TableFits chromACCounts acTblIndexLen := by
  decide +kernel

theorem shortHeaderTables_meets (fDenali : Bool) :
    Meets (shortHeaderTables fDenali)
      (fun _ g' => ∃ dc ac, g' = { g with dcTbls := dc, acTbls := ac } ∧
        (∀ i, i < 2 ∨ (g.dcTbls i).isSome → (dc i).isSome) ∧
        ∀ i, i < 2 ∨ (g.acTbls i).isSome → (ac i).isSome) g := by
  obtain ⟨hlumDC, hlumAC, hlumACDenali, hchromDC, hchromAC⟩ := default_fits
  have hlum : TableFits (if fDenali then lumACCountsDenali else lumACCounts) acTblIndexLen := by
    cases fDenali with
    | false => exact hlumAC
    | true => exact hlumACDenali
  rw [shortHeaderTables]
  -- only that they fit matters of the tables
  generalize (if fDenali then lumACCountsDenali else lumACCounts) = lumAC at hlum ⊢
  generalize lumDCCounts = lumDC at hlumDC ⊢
  generalize chromDCCounts = chromDC at hchromDC ⊢
  generalize chromACCounts = chromAC at hchromAC ⊢
  rw [meets_bind]
  refine meets_huffDefineTable (by decide) hlumDC ?_
  rw [meets_bind]
  refine meets_huffDefineTable (by decide) hlum ?_
  rw [meets_bind]
  refine meets_huffDefineTable (by decide) hchromDC ?_
  refine meets_huffDefineTable (by decide) hchromAC ?_
  simp only [withTable_dc, withTable_ac]
  refine ⟨_, _, rfl, fun i hi => ?_, fun i hi => ?_⟩
  · show Option.isSome (if i = 1 then some _ else if i = 0 then some _ else g.dcTbls i) = true
    by_cases h1 : i = 1
    · rw [if_pos h1]
      rfl
    · rw [if_neg h1]
      by_cases h0 : i = 0
      · rw [if_pos h0]
        rfl
      · rw [if_neg h0]
        exact hi.resolve_left (by lia)
  · show Option.isSome (if i = 1 then some _ else if i = 0 then some _ else g.acTbls i) = true
    by_cases h1 : i = 1
    · rw [if_pos h1]
      rfl
    · rw [if_neg h1]
      by_cases h0 : i = 0
      · rw [if_pos h0]
        rfl
      · rw [if_neg h0]
        exact hi.resolve_left (by lia)

theorem getD_selectors {l : List Nat} (hl : l.length = 4) {c : Nat} (hc : c < 4) :
    (((l.set 0 0).set 1 1).set 2 1).getD c 0 < 2 ∨
      (c = 3 ∧ (((l.set 0 0).set 1 1).set 2 1).getD c 0 = l.getD 3 0) := by
  match l, hl with
  | [x, y, z, u], _ =>
    interval_cases c
    · exact Or.inl (show 0 < 2 by decide)
    · exact Or.inl (show 1 < 2 by decide)
    · exact Or.inl (show 1 < 2 by decide)
    · exact Or.inr ⟨rfl, rfl⟩

theorem names_selector {α : Type} {tbls tbls' : Nat → Option α} {l : List Nat} {n c : Nat}
    (hl : l.length = 4) (hn : n ≤ 4) (hc : c < n)
    (htbls : ∀ i, i < 2 ∨ (tbls i).isSome → (tbls' i).isSome)
    (hlast : n = 4 → l.getD 3 0 < 2 ∨ Names tbls (l.getD 3 0)) :
    Names tbls' ((((l.set 0 0).set 1 1).set 2 1).getD c 0) := by
  rcases getD_selectors hl (Nat.lt_of_lt_of_le hc hn) with hlow | ⟨rfl, hthree⟩
  · exact ⟨by omega, htbls _ (Or.inl hlow)⟩
  · rw [hthree]
    rcases hlast (by omega) with hlow | ⟨hfour, hsome⟩
    · exact ⟨by omega, htbls _ (Or.inl hlow)⟩
    · exact ⟨hfour, htbls _ (Or.inr hsome)⟩

theorem le_parseFactors_max (factors : Nat) :
    (parseFactors factors).1.getD 0 0 ≤ (parseFactors factors).2 :=
  Nat.le_max_left _ _

theorem parseAppShortHeader_meets (hinv : Inv g) (h : ShortOk buf g) :
    Meets (parseAppShortHeader buf)
      (fun _ g' => g.next ≤ g'.next ∧ g'.gotShortHeader = true ∧ Usable g') g := by
  obtain ⟨hhas, ⟨hpos, hfour⟩, hfactors, hlast⟩ := h
  rw [Has] at hhas
  rw [parseAppShortHeader, meets_bind, meets_modify, meets_bind, meets_get, meets_bind]
  refine (shortHeaderTables_meets _).mono fun _ g₁ hg₁ => ?_
  obtain ⟨dc, ac, rfl, hdc, hac⟩ := hg₁
  rw [meets_bind, meets_readUint]
  refine ⟨by show g.next + 2 ≤ _; lia, ?_⟩
  rw [meets_ite]
  refine ⟨fun _ => trivial, fun _ => ?_⟩
  simp only [meets_bind, meets_readUint, meets_readByte, meets_modify, Nat.add_assoc,
    Nat.reduceAdd, Has]
  -- the reads behind the length
  have hreads : ∀ n ≤ 18, g.next + n ≤ buf.length := fun n hn => by lia
  refine ⟨hreads 4 (by decide), hreads 6 (by decide), hreads 8 (by decide), hreads 10 (by decide),
    hreads 11 (by decide), hreads 12 (by decide), hreads 14 (by decide), hreads 16 (by decide),
    hreads 17 (by decide), hreads 18 (by decide), ?_⟩
  refine ⟨Nat.le_add_right _ _, trivial, ?_⟩
  constructor
  · exact ⟨hpos, hfour⟩
  · exact hfactors
  · have hfirst := hfactors 0 hpos
    exact ⟨Nat.le_trans hfirst.1.1 (le_parseFactors_max _),
      Nat.le_trans hfirst.2.1 (le_parseFactors_max _)⟩
  · intro c hc
    refine names_selector hinv.quant hfour hc (fun i hi => ?_) fun hn => (hlast hn).1
    show Option.isSome (if i = 0 then some _ else if i = 1 then some _ else g.quantTbls i) = true
    by_cases h0 : i = 0
    · rw [if_pos h0]
      rfl
    · rw [if_neg h0]
      by_cases h1 : i = 1
      · rw [if_pos h1]
        rfl
      · rw [if_neg h1]
        exact hi.resolve_left (by lia)
  · intro c hc
    exact names_selector hinv.dc hfour hc hdc fun hn => (hlast hn).2.1
  · intro c hc
    exact names_selector hinv.ac hfour hc hac fun hn => (hlast hn).2.2

theorem marParseApp_meets (marker : Nat) (hm : marker ≠ 0xda) (hinv : Inv g)
    (h : AppOk buf marker g) : Meets (marParseApp buf marker) (Parsed marker g) g := by
  obtain ⟨hhead, hmore⟩ := h
  rw [marParseApp, meets_bind, meets_readUint, meets_ite]
  refine ⟨hhead, fun _ => meets_readSkipForward (Kept.parsed ⟨?_, hinv.withNext _⟩ hm),
    fun hlen => ?_⟩
  · show g.next ≤ g.next + 2 + _
    lia
  · obtain ⟨hfive, hkind⟩ := hmore (Nat.lt_of_not_le hlen)
    have hbytes := hfive
    rw [Has] at hbytes
    rw [meets_bind, meets_readByte]
    refine ⟨by show g.next + 2 < _; lia, ?_⟩
    rw [meets_bind, meets_readByte]
    refine ⟨by show g.next + 2 + 1 < _; lia, ?_⟩
    rw [meets_bind, meets_readByte]
    refine ⟨by show g.next + 2 + 1 + 1 < _; lia, ?_⟩
    rw [meets_bind, meets_readSkipBackward]
    -- back to the length, for the parser of the kind
    have hback : seek g (g.next + 2 + 1 + 1 + 1 - 5) = g := by
      rw [show g.next + 2 + 1 + 1 + 1 - 5 = g.next by lia]
    simp only [seek_seek]
    rw [hback, meets_ite]
    refine ⟨fun hg3 => ?_, fun hg3 => ?_⟩
    · rw [if_pos hg3] at hkind
      exact (parseAppG3fax_meets hinv hfive hkind).mono fun _ _ hg' => Kept.parsed hg' hm
    · rw [if_neg hg3] at hkind
      rw [meets_ite]
      refine ⟨fun hjfif => ?_, fun hjfif => ?_⟩
      · rw [if_pos hjfif] at hkind
        exact (parseAppJfif_meets hinv hfive hkind).mono fun _ _ hg' => Kept.parsed hg' hm
      · rw [if_neg hjfif] at hkind
        rw [meets_ite]
        refine ⟨fun hshort => ?_, fun _ =>
          meets_readSkipForward (Kept.parsed ⟨Nat.le_add_right _ _, hinv.withNext _⟩ hm)⟩
        rw [if_pos hshort] at hkind
        exact (parseAppShortHeader_meets hinv hkind).mono fun _ _ hg' =>
          ⟨hg'.1, fun _ => hg'.2.2, fun hno => absurd (Or.inr hg'.2.1) hno⟩

/-! ## A round -/

theorem marParse_meets (marker : Nat) (hinv : Inv g) (h : SegmentOk buf marker g) :
    Meets (marParse buf marker) (Parsed marker g) g := by
  have hstay : Kept g () g := ⟨Nat.le_refl _, hinv⟩
  rw [SegmentOk] at h
  rw [marParse, meets_ite]
  refine ⟨fun happ => ?_, fun happ => ?_⟩
  · rw [if_pos happ] at h
    exact marParseApp_meets marker (by omega) hinv h
  rw [if_neg happ] at h
  rw [meets_ite]
  refine ⟨fun hflush => ?_, fun hflush => ?_⟩
  · rw [if_pos hflush] at h
    rw [IsFlushed] at hflush
    exact (marFlush_meets hinv h).mono fun _ _ hg' => Kept.parsed hg' (by omega)
  rw [if_neg hflush] at h
  rw [meets_ite]
  refine ⟨fun hsof => ?_, fun hsof => ?_⟩
  · rw [if_pos hsof] at h
    rw [IsSof] at hsof
    exact (marParseSof_meets marker hinv h).mono fun _ _ hg' => Kept.parsed hg' (by omega)
  rw [if_neg hsof] at h
  rw [meets_ite]
  refine ⟨fun hrst => Kept.parsed hstay (by omega), fun _ => ?_⟩
  rw [meets_ite]
  refine ⟨fun hdht => ?_, fun hdht => ?_⟩
  · rw [if_pos hdht] at h
    exact (marParseDht_meets hinv h.1 h.2).mono fun _ _ hg' => Kept.parsed hg' (by omega)
  rw [if_neg hdht] at h
  rw [meets_ite]
  refine ⟨fun hdqt => ?_, fun hdqt => ?_⟩
  · rw [if_pos hdqt] at h
    exact (marParseDqt_meets hinv h.1 h.2).mono fun _ _ hg' => Kept.parsed hg' (by omega)
  rw [if_neg hdqt] at h
  rw [meets_ite]
  refine ⟨fun hdri => ?_, fun hdri => ?_⟩
  · rw [if_pos hdri] at h
    exact (marParseDri_meets hinv h.1 h.2).mono fun _ _ hg' => Kept.parsed hg' (by omega)
  rw [if_neg hdri] at h
  rw [meets_ite]
  refine ⟨fun hsos => ?_, fun hsos => ?_⟩
  · rw [if_pos hsos] at h
    exact (marParseSos_meets hinv h).mono fun _ _ hg' =>
      ⟨hg'.1, fun _ => hg'.2, fun hno => absurd (Or.inl hsos) hno⟩
  rw [if_neg hsos] at h
  rw [meets_ite]
  refine ⟨fun hdnl => ?_, fun _ => ?_⟩
  · rw [if_pos hdnl] at h
    exact (marParseDnl_meets hinv h).mono fun _ _ hg' => Kept.parsed hg' hsos
  rw [meets_ite]
  refine ⟨fun _ => trivial, fun _ => ?_⟩
  rw [meets_ite]
  exact ⟨fun _ => Kept.parsed hstay hsos, fun _ => trivial⟩

theorem headerStep_meets (hinv : Inv g) (h : StepOk buf g) :
    Meets (headerStep buf)
      (fun more g' => g.next < g'.next ∧ (more = true → Inv g') ∧ (more = false → Usable g'))
      g := by
  obtain ⟨hmarker, hsegment⟩ := h
  rw [headerStep, meets_bind]
  refine (marGet_meets hmarker).with_eq.mono fun marker g₁ hg₁ => ?_
  obtain ⟨⟨n, hn, rfl⟩, heq⟩ := hg₁
  rw [meets_bind]
  refine (marParse_meets marker (hinv.withNext n) (hsegment _ _ heq)).mono fun _ g' hg' => ?_
  rw [meets_ite]
  refine ⟨fun _ => trivial, fun _ => ?_⟩
  rw [meets_bind, meets_get, meets_pure]
  obtain ⟨hnext, hends, hgoes⟩ := hg'
  refine ⟨Nat.lt_of_lt_of_le hn hnext, fun hmore => hgoes ?_, fun hmore => hends ?_⟩
  · rw [Bool.not_eq_true', decide_eq_false_iff_not] at hmore
    exact hmore
  · rw [Bool.not_eq_false', decide_eq_true_iff] at hmore
    exact hmore

/-! ## The run -/

theorem headerLoop_meets (rounds : Nat) (hpos : 0 < rounds) (hinv : Inv g)
    (h : RunOk buf rounds g) (hrounds : buf.length < rounds + g.next) :
    Meets (headerLoop buf rounds) (fun _ g' => Usable g') g := by
  induction rounds generalizing g with
  | zero => exact absurd hpos (Nat.lt_irrefl 0)
  | succ rounds ih =>
    obtain ⟨hstep, hrest⟩ := h
    obtain ⟨q, hq, hlt, -⟩ := hstep.1
    rw [headerLoop, meets_bind]
    refine (headerStep_meets hinv hstep).with_eq.mono fun more g' hg' => ?_
    obtain ⟨⟨hnext, hmore, hends⟩, heq⟩ := hg'
    cases more with
    | true => exact ih (by lia) (hmore rfl) (hrest g' heq) (by lia)
    | false => exact hends rfl

theorem allocRows_meets (n comp : Nat) (hfit : comp + n ≤ 4)
    (h : ∀ c, c < comp + n → g.vertSampFacs.getD c 0 ≤ 4) :
    Meets (allocRows n comp) (fun _ g' => g' = g) g := by
  induction n generalizing comp with
  | zero => rfl
  | succ n ih =>
    have hrows := h comp (by omega)
    rw [allocRows, meets_bind, meets_checkIndex]
    refine ⟨by omega, ?_⟩
    rw [meets_bind, meets_get, meets_ite]
    refine ⟨fun hmany => by omega, fun _ => ?_⟩
    exact ih (comp + 1) (by omega) fun c hc => h c (by omega)

theorem openXform_inv (fDenali : Bool) : Inv (openXform fDenali) where
  comps := Nat.zero_le 4
  max h := absurd h (Nat.not_succ_le_zero 0)
  horiz := rfl
  vert := rfl
  quant := rfl
  dc := rfl
  ac := rfl
  short := rfl

theorem getActualTraits_usable (buf : List UInt8) (fDenali : Bool) (h : HeaderOk buf fDenali) :
    Meets (getActualTraits buf) (fun _ g => Usable g) (openXform fDenali) := by
  obtain ⟨hmarker, hrun⟩ := h
  rw [getActualTraits, meets_bind, meets_modify, meets_bind]
  have hsoi := (marGet_meets (g := openXform fDenali) hmarker).with_eq
  refine hsoi.mono fun soi g hg => ?_
  obtain ⟨⟨n, hn, rfl⟩, heq⟩ := hg
  rw [meets_ite]
  refine ⟨fun _ => trivial, fun hd8 => ?_⟩
  rw [not_not] at hd8
  rw [hd8] at heq
  rw [meets_bind]
  refine (headerLoop_meets _ (Nat.succ_pos _) ((openXform_inv fDenali).withNext n) (hrun _ heq)
    (by omega)).mono fun _ g hg => ?_
  rw [meets_bind, meets_modify, meets_bind, meets_get, meets_ite]
  have hmax := hg.max
  refine ⟨fun hzero => ?_, fun _ => ?_⟩
  · have hzero : g.maxHorizSampFac * 8 = 0 := hzero
    omega
  rw [meets_bind, meets_modify]
  refine (allocRows_meets g.numComps 0 ?_ fun c hc => ?_).mono fun _ g' hg' => ?_
  · rw [Nat.zero_add]
    exact hg.comps.2
  · rw [Nat.zero_add] at hc
    exact (hg.factors c hc).2.2
  rw [hg']
  exact ⟨hg.comps, hg.factors, hg.max, hg.quant, hg.dc, hg.ac⟩

/-- A header of the OfficeJet firmware: eight pixels a row, one row, all factors one. -/
def shortHeader (numComps : UInt8) : List UInt8 :=
  [0xff, 0xd8, 0xff, 0xe1, 0, 18, 0, 1, 0, 8, 0, 0, 0, 0, 50, numComps, 0x11, 0x11, 0x11, 0x11,
    0, 0]

theorem shortHeader_ok : HeaderOk (shortHeader 1) false := by
  have hsoi : marGet (shortHeader 1) (openXform false)
      = .ok (0xd8, seek (openXform false) 2) := rfl
  have happ : marGet (shortHeader 1) (seek (openXform false) 2)
      = .ok (0xe1, seek (openXform false) 4) := rfl
  have hends : (match headerStep (shortHeader 1) (seek (openXform false) 2) with
      | .ok (more, _) => more
      | .error _ => false) = false := by
    decide +kernel
  refine ⟨⟨1, by decide, by decide, by decide⟩, fun g hg => ?_⟩
  obtain rfl : seek (openXform false) 2 = g := by
    rw [hsoi] at hg
    exact congrArg Prod.snd (Except.ok.inj hg)
  refine ⟨⟨⟨3, by decide, by decide, by decide⟩, fun marker g' hg' => ?_⟩, fun g' hg' => ?_⟩
  · rw [happ] at hg'
    obtain ⟨rfl, rfl⟩ := Prod.mk.inj (Except.ok.inj hg')
    rw [SegmentOk, if_pos (by decide)]
    refine ⟨by decide, fun _ => ⟨by decide, ?_⟩⟩
    rw [if_neg (by decide), if_neg (by decide), if_pos (by decide)]
    refine ⟨by decide, by decide, fun c hc => ?_, fun hfour => absurd hfour (by decide)⟩
    obtain rfl : c = 0 := Nat.lt_one_iff.mp hc
    decide
  · rw [hg'] at hends
    exact absurd hends.symm Bool.false_ne_true

theorem getActualTraits_usable_short : HeaderOk (shortHeader 1) false ∧
    Meets (getActualTraits (shortHeader 1)) (fun _ g => Usable g) (openXform false) :=
  ⟨shortHeader_ok, getActualTraits_usable (shortHeader 1) false shortHeader_ok⟩

/-- With 200 of them: no parser asks how many `out_rows_ap` has. -/
theorem getActualTraits_not_usable :
    ¬ Meets (getActualTraits (shortHeader 200)) (fun _ g => Usable g) (openXform false) :=
  not_meets_of_faults (by decide +kernel)

end

end Hplip.Ip.JpegHdr
