import Hplip.Hpcups.Job
import Hplip.Lib.Loop
import Hplip.Lib.PackedRow

/-!
# The unpacked black raster (Job.cpp)

`SendRasters` has a row of bits unpacked to a byte for each pixel. The buffer for it is made with
the first row, and cleared before each. It has a byte for each pixel of a row; the loop goes over
the bits of whole bytes.
-/

namespace Hplip.Hpcups.BlackRaster

open Loop PackedRow Bits

/-! ## The calls -/

/-- `bitflag` in `unpackBits`. -/
def bitflag : List UInt8 := [0x80, 0x40, 0x20, 0x10, 0x08, 0x04, 0x02, 0x01]

/-- `setBlackRaster`; `fresh` is the memory that `new` gives, and the pointer NULL until then. -/
def setBlackRaster (printableWidth : Nat) (fresh : List UInt8) (raster : Option (List UInt8)) :
    Option (List UInt8) := do
  let raster := raster.getD fresh
  check (printableWidth ≤ raster.length)
  some (List.replicate printableWidth 0 ++ raster.drop printableWidth)

def unpackBit (data : List UInt8) (i : Nat) (raster : List UInt8) (j : Nat) :
    Option (List UInt8) := do
  let byte ← data[i]?
  if byte &&& bitflag.getD j 0 ≠ 0 then do
    check (i * 8 + j < raster.length)
    some (raster.set (i * 8 + j) 1)
  else some raster

/-- `unpackBits`; the width is an `int`. -/
def unpackBits (printableWidth : Nat) (data raster : List UInt8) : Option (List UInt8) := do
  check (printableWidth + 7 < 2 ^ 31)
  let width := (printableWidth + 7) / 8
  (List.range width).foldlM
    (fun raster i => (List.range 8).foldlM (unpackBit data i) raster) raster

/-- What `SendRasters` does with a black row. -/
def blackRow (printableWidth : Nat) (fresh : List UInt8) (raster : Option (List UInt8))
    (data : List UInt8) : Option (List UInt8) := do
  let raster ← setBlackRaster printableWidth fresh raster
  unpackBits printableWidth data raster

def blackRows (printableWidth : Nat) (fresh : List UInt8) :
    Option (List UInt8) → List (List UInt8) → Option (List (List UInt8))
  | _, [] => some []
  | raster, data :: rows => do
    let raster ← blackRow printableWidth fresh raster data
    let rest ← blackRows printableWidth fresh (some raster) rows
    some (raster :: rest)

/-! ## What is to be done -/

variable {printableWidth : Nat} {data fresh : List UInt8}

/-- One byte for each pixel, and nothing else in it than the row. -/
def Unpacked (printableWidth : Nat) (data out : List UInt8) : Prop :=
  out.length = printableWidth ∧
    ∀ x < printableWidth, out[x]? = some (if bit data x = some true then 1 else 0)

/-- The bits behind the last pixel are clear, and the width can be rounded up. -/
def Fits (printableWidth : Nat) (data : List UInt8) : Prop :=
  printableWidth + 7 < 2 ^ 31 ∧ ∀ x, printableWidth ≤ x → bit data x ≠ some true

/-! ## The loops -/

/-- A buffer of `len` bytes after the first `k` bits. -/
def marked (data : List UInt8) (len k : Nat) : List UInt8 :=
  (List.range len).map fun x => if x < k ∧ bit data x = some true then 1 else 0

theorem length_marked (len k : Nat) : (marked data len k).length = len := by
  rw [marked, List.length_map, List.length_range]

theorem getElem?_marked {len x : Nat} (hx : x < len) (k : Nat) :
    (marked data len k)[x]? = some (if x < k ∧ bit data x = some true then 1 else 0) := by
  rw [marked, List.getElem?_map, List.getElem?_range hx]
  rfl

theorem marked_zero (len : Nat) : marked data len 0 = List.replicate len 0 := by
  refine List.ext_getElem? fun x => ?_
  by_cases hx : x < len
  · rw [getElem?_marked hx, if_neg fun h => Nat.not_lt_zero x h.1, List.getElem?_replicate, if_pos hx]
  · rw [List.getElem?_eq_none (by rw [length_marked]; omega),
      List.getElem?_eq_none (by rw [List.length_replicate]; omega)]

theorem marked_set {len k : Nat} (hk : k < len) (hbit : bit data k = some true) :
    (marked data len k).set k 1 = marked data len (k + 1) := by
  refine List.ext_getElem? fun x => ?_
  by_cases hx : x < len
  · rw [List.getElem?_set, getElem?_marked hx, getElem?_marked hx, length_marked]
    by_cases heq : k = x
    · subst heq
      rw [if_pos rfl, if_pos hk, if_pos ⟨Nat.lt_succ_self k, hbit⟩]
    · rw [if_neg heq]
      congr 2
      exact propext ⟨fun h => ⟨by omega, h.2⟩, fun h => ⟨by omega, h.2⟩⟩
  · rw [List.getElem?_eq_none (by rw [List.length_set, length_marked]; omega),
      List.getElem?_eq_none (by rw [length_marked]; omega)]

theorem marked_skip {len k : Nat} (hbit : bit data k ≠ some true) :
    marked data len k = marked data len (k + 1) := by
  unfold marked
  refine List.map_congr_left fun x _ => ?_
  congr 1
  refine propext ⟨fun h => ⟨by omega, h.2⟩, fun h => ⟨?_, h.2⟩⟩
  have hne : x ≠ k := by
    rintro rfl
    exact hbit h.2
  omega

/-- After the first `k` bits: stuck, if one of them has no byte in the buffer. -/
def afterBits (data : List UInt8) (len k : Nat) : Option (List UInt8) :=
  if ∃ x < k, len ≤ x ∧ bit data x = some true then none else some (marked data len k)

theorem bitflag_set {b : UInt8} {x : Nat} :
    b &&& bitflag.getD (x % 8) 0 ≠ 0 ↔ b.toNat.testBit (7 - x % 8) = true := by
  have hmask : ∀ j < 8, (bitflag.getD j 0).toNat = 2 ^ (7 - j) := by decide
  exact and_mask_ne_zero (hmask _ (Nat.mod_lt x (by decide)))

theorem afterBits_step {len k : Nat} (hk : k / 8 < data.length) :
    (afterBits data len k).bind (unpackBit data (k / 8) · (k % 8)) = afterBits data len (k + 1) := by
  have hplace : k / 8 * 8 + k % 8 = k := Nat.div_add_mod' k 8
  unfold afterBits
  by_cases hbad : ∃ x < k, len ≤ x ∧ bit data x = some true
  · have hlater : ∃ x < k + 1, len ≤ x ∧ bit data x = some true := by
      obtain ⟨x, hx, h⟩ := hbad
      exact ⟨x, Nat.lt_succ_of_lt hx, h⟩
    rw [if_pos hbad, if_pos hlater]
    rfl
  · rw [if_neg hbad]
    show (do
      let byte ← data[k / 8]?
      if byte &&& bitflag.getD (k % 8) 0 ≠ 0 then do
        check (k / 8 * 8 + k % 8 < (marked data len k).length)
        some ((marked data len k).set (k / 8 * 8 + k % 8) 1)
      else some (marked data len k)) = _
    rw [List.getElem?_eq_getElem hk, hplace, length_marked]
    show (if data[k / 8] &&& bitflag.getD (k % 8) 0 ≠ 0 then _ else _) = _
    by_cases hset : data[k / 8] &&& bitflag.getD (k % 8) 0 ≠ 0
    · have hbit : bit data k = some true := by rw [bit_eq_testBit hk, bitflag_set.mp hset]
      rw [if_pos hset]
      by_cases hin : k < len
      · have hgood : ¬ ∃ x < k + 1, len ≤ x ∧ bit data x = some true := by
          rintro ⟨x, hx, hlen, h⟩
          omega
        rw [check_pos hin, if_neg hgood]
        exact congrArg some (marked_set hin hbit)
      · rw [check, if_neg hin, if_pos ⟨k, Nat.lt_succ_self k, Nat.le_of_not_lt hin, hbit⟩]
        rfl
    · have hbit : bit data k ≠ some true := by
        intro h
        rw [bit_eq_testBit hk] at h
        exact hset (bitflag_set.mpr (Option.some.inj h))
      have hgood : ¬ ∃ x < k + 1, len ≤ x ∧ bit data x = some true := by
        rintro ⟨x, hx, hlen, h⟩
        rcases Nat.lt_succ_iff_lt_or_eq.mp hx with hlt | rfl
        · exact hbad ⟨x, hlt, hlen, h⟩
        · exact hbit h
      rw [if_neg hset, if_neg hgood, marked_skip hbit]

theorem unpackBits_eq {len : Nat} (hdata : data.length = (printableWidth + 7) / 8)
    (hwidth : printableWidth + 7 < 2 ^ 31) :
    unpackBits printableWidth data (List.replicate len 0)
      = afterBits data len (8 * ((printableWidth + 7) / 8)) := by
  rw [unpackBits, check_pos hwidth]
  have hnone (k : Nat) (h : afterBits data len k = none) : afterBits data len (k + 8) = none := by
    unfold afterBits at h ⊢
    by_cases hbad : ∃ x < k, len ≤ x ∧ bit data x = some true
    · obtain ⟨x, hx, hrest⟩ := hbad
      exact if_pos ⟨x, Nat.lt_add_right 8 hx, hrest⟩
    · rw [if_neg hbad] at h
      cases h
  refine foldlM_range_eq (fun i => afterBits data len (8 * i)) ?_ fun i hi => ?_
  · rw [Nat.mul_zero, afterBits, if_neg fun ⟨x, hx, _⟩ => Nat.not_lt_zero x hx, marked_zero]
  · cases hstart : afterBits data len (8 * i) with
    | none => exact (hnone _ hstart).symm
    | some raster =>
      refine foldlM_range_eq (fun j => afterBits data len (8 * i + j)) hstart fun j hj => ?_
      have hstep : (afterBits data len (8 * i + j)).bind
          (unpackBit data ((8 * i + j) / 8) · ((8 * i + j) % 8)) = _ := afterBits_step (by omega)
      rw [show (8 * i + j) / 8 = i by omega, show (8 * i + j) % 8 = j by omega] at hstep
      exact hstep

/-! ## Rows -/

theorem setBlackRaster_eq {raster : Option (List UInt8)}
    (h : (raster.getD fresh).length = printableWidth) :
    setBlackRaster printableWidth fresh raster = some (List.replicate printableWidth 0) := by
  rw [setBlackRaster, check_pos (Nat.le_of_eq h.symm)]
  show some (_ ++ (raster.getD fresh).drop printableWidth) = _
  rw [List.drop_eq_nil_of_le (Nat.le_of_eq h), List.append_nil]

theorem afterBits_fits (k : Nat) (h : ∀ x, printableWidth ≤ x → bit data x ≠ some true) :
    afterBits data printableWidth k = some (marked data printableWidth k) :=
  if_neg fun ⟨x, _, hx, hbit⟩ => h x hx hbit

theorem unpacked_marked :
    Unpacked printableWidth data (marked data printableWidth (8 * ((printableWidth + 7) / 8))) := by
  refine ⟨length_marked _ _, fun x hx => ?_⟩
  rw [getElem?_marked hx]
  congr 2
  exact propext ⟨And.right, fun h => ⟨by omega, h⟩⟩

theorem blackRow_iff {raster : Option (List UInt8)}
    (hraster : (raster.getD fresh).length = printableWidth)
    (hdata : data.length = (printableWidth + 7) / 8) :
    Returns (blackRow printableWidth fresh raster data) (Unpacked printableWidth data)
      ↔ Fits printableWidth data := by
  rw [blackRow, setBlackRaster_eq hraster]
  show Returns (unpackBits printableWidth data (List.replicate printableWidth 0)) _ ↔ _
  by_cases hwidth : printableWidth + 7 < 2 ^ 31
  · rw [unpackBits_eq hdata hwidth]
    constructor
    · rintro ⟨out, hout, -⟩
      refine ⟨hwidth, fun x hx hbit => ?_⟩
      have hlt : x < 8 * ((printableWidth + 7) / 8) := by
        by_contra hge
        rw [bit, List.getElem?_eq_none (by rw [bitsOf_length, hdata]; omega)] at hbit
        cases hbit
      rw [afterBits, if_pos ⟨x, hlt, hx, hbit⟩] at hout
      cases hout
    · intro h
      rw [afterBits_fits _ h.2]
      exact Returns.pure unpacked_marked
  · refine iff_of_false ?_ fun h => hwidth h.1
    rintro ⟨out, hout, -⟩
    rw [unpackBits, check, if_neg hwidth] at hout
    cases hout

theorem blackRows_from {raster : Option (List UInt8)} {rows : List (List UInt8)}
    (hraster : (raster.getD fresh).length = printableWidth)
    (hrows : ∀ data ∈ rows, data.length = (printableWidth + 7) / 8) :
    Returns (blackRows printableWidth fresh raster rows)
        (List.Forall₂ (Unpacked printableWidth) rows)
      ↔ ∀ data ∈ rows, Fits printableWidth data := by
  induction rows generalizing raster with
  | nil => exact iff_of_true (Returns.pure .nil) fun _ h => nomatch h
  | cons data rows ih =>
    have hdata := hrows data List.mem_cons_self
    rw [List.forall_mem_cons, ← blackRow_iff hraster hdata, blackRows]
    constructor
    · rintro ⟨outs, houts, hall⟩
      obtain ⟨out, hout, houts⟩ := Option.bind_eq_some_iff.mp houts
      obtain ⟨rest, hrest, houts⟩ := Option.bind_eq_some_iff.mp houts
      cases houts
      cases hall with
      | cons hfirst hall =>
        have hkept : ((some out).getD fresh).length = printableWidth := hfirst.1
        exact ⟨⟨out, hout, hfirst⟩, (ih hkept fun d hd => hrows d (List.mem_cons_of_mem _ hd)).mp
          ⟨rest, hrest, hall⟩⟩
    · rintro ⟨hfirst, hall⟩
      refine Returns.bind hfirst fun out hout => ?_
      have hkept : ((some out).getD fresh).length = printableWidth := hout.1
      have hrest := (ih hkept fun d hd => hrows d (List.mem_cons_of_mem _ hd)).mpr hall
      exact Returns.bind hrest fun rest h => Returns.pure (.cons hout h)

/-- **The rows of a job** are unpacked as they should be exactly if each fits. -/
theorem blackRows_iff (printableWidth : Nat) (fresh : List UInt8) (rows : List (List UInt8))
    (hfresh : fresh.length = printableWidth)
    (hrows : ∀ data ∈ rows, data.length = (printableWidth + 7) / 8) :
    Returns (blackRows printableWidth fresh none rows)
        (List.Forall₂ (Unpacked printableWidth) rows)
      ↔ ∀ data ∈ rows, Fits printableWidth data :=
  blackRows_from hfresh hrows

/-- Two rows of nine pixels. -/
theorem blackRows_nine : Returns (blackRows 9 (List.replicate 9 7) none [[0xFF, 0x80], [0x01, 0]])
      (List.Forall₂ (Unpacked 9) [[0xFF, 0x80], [0x01, 0]])
    ↔ ∀ data ∈ [[0xFF, 0x80], [0x01, 0]], Fits 9 data :=
  blackRows_iff 9 (List.replicate 9 7) _ (by decide) (by decide)

/-- A set bit behind the last pixel is unpacked as well. -/
theorem padding_overruns : ¬ ∀ (printableWidth : Nat) (fresh data : List UInt8),
    0 < printableWidth → fresh.length = printableWidth →
    data.length = (printableWidth + 7) / 8 →
      Returns (blackRow printableWidth fresh none data) (Unpacked printableWidth data) := by
  intro h
  obtain ⟨out, hout, -⟩ := h 1 [0] [0xC0] (by decide) rfl rfl
  have hstuck : blackRow 1 [0] none [0xC0] = none := by decide
  rw [hstuck] at hout
  cases hout

end Hplip.Hpcups.BlackRaster
