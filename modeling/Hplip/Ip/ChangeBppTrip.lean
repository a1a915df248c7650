import Hplip.Ip.ChangeBpp

/-!
# There and back, and how far the stores go

A row that is changed to a depth that has room for its values and back is the row it was. The
loops from a bilevel row go over all eight pixels of its last byte; where does that end?
-/

namespace Hplip.Ip.ChangeBpp

open Stores LittleEndian Bits PackedRow

/-! ## What is stored for a pixel -/

structure Plain (a b : Depth) : Prop where
  ne : a ≠ b
  fromBytes : a ≠ .bilevel
  toBytes : b ≠ .bilevel

theorem step_bits {a : Depth} (h : a ≠ .bilevel) : a.bits = 8 * a.step := by
  cases a with
  | bilevel => exact absurd rfl h
  | _ => rfl

theorem step_pos (a : Depth) : 0 < a.step := by
  cases a <;> decide

def pixelBytes (a b : Depth) (row : List UInt8) (pIn : Nat) : List UInt8 :=
  (pixelStores a b row pIn).flatten

theorem pixelBytes_length {a b : Depth} (h : Plain a b) (row : List UInt8) (pIn : Nat) :
    pixelStores a b row pIn ≠ [] ∧ (pixelBytes a b row pIn).length = b.step := by
  obtain ⟨hne, ha, hb⟩ := h
  cases a <;> cases b <;> first | contradiction | exact ⟨List.cons_ne_nil _ _, rfl⟩

theorem fills_pixel {a b : Depth} (h : Plain a b) (row : List UInt8) (pIn : Nat) :
    Fills b.step 0 ((pixelBytes a b row pIn).getD · 0) ((pixelStores a b row pIn).map .of) := by
  obtain ⟨hne, hlen⟩ := pixelBytes_length h row pIn
  have hfills := Fills.of _ hne 0
  rwa [← pixelBytes, hlen] at hfills

def bitByte (c : Bool) : UInt8 := if c then 0 else 0xff

def spill : Depth → Nat
  | .color24 => 1
  | _ => 0

theorem fills_black {b : Depth} (hb : b ≠ .bilevel) :
    Fills b.step (spill b) (fun _ => 0) (bilevelPixel b 1 1) := by
  cases b with
  | bilevel => exact absurd rfl hb
  | gray8 => exact (Fills.of [[0]] (List.cons_ne_nil _ _) 0).congr (by decide)
  | gray16 => exact (Fills.of [word 0] (List.cons_ne_nil _ _) 0).congr (by decide)
  | color24 => exact (Fills.single (w := 3) (bytes 4 0) 0 (by decide)).congr (by decide)
  | color48 =>
    exact (Fills.of [bytes 4 0, word 0] (List.cons_ne_nil _ _) 0).congr (by decide)

theorem fills_white {b : Depth} (hb : b ≠ .bilevel) :
    Fills b.step (spill b) (fun _ => 0xff) (bilevelPixel b 0 1) := by
  cases b with
  | bilevel => exact absurd rfl hb
  | gray8 => exact (Fills.of [[0xff]] (List.cons_ne_nil _ _) 0).congr (by decide)
  | gray16 => exact (Fills.of [word 0xffff] (List.cons_ne_nil _ _) 0).congr (by decide)
  | color24 => exact (Fills.single (w := 3) (bytes 4 0xffffffff) 0 (by decide)).congr (by decide)
  | color48 =>
    exact (Fills.of [bytes 4 0xffffffff, word 0xffffffff]
      (List.cons_ne_nil _ _) 0).congr (by decide)

theorem fills_bit {b : Depth} (hb : b ≠ .bilevel) (v mask : UInt8) :
    Fills b.step (spill b) (fun _ => bitByte (decide (mask &&& v ≠ 0))) (bilevelPixel b v mask) := by
  by_cases hblack : mask &&& v ≠ 0
  · have hstores : bilevelPixel b v mask = bilevelPixel b 1 1 := by
      simp only [bilevelPixel, if_pos hblack]
      rfl
    rw [hstores, decide_eq_true hblack]
    exact fills_black hb
  · have hstores : bilevelPixel b v mask = bilevelPixel b 0 1 := by
      simp only [bilevelPixel, if_neg hblack]
      rfl
    rw [hstores, decide_eq_false hblack]
    exact fills_white hb

/-! ## Rows of whole bytes -/

theorem getD_convert {g : Converter} {row : List UInt8} {mem : Nat → UInt8} {i : Nat}
    (hi : i < g.dwOutRowBytes) : (g.convert row mem).getD i 0 = run (g.storesOf row) 0 mem i := by
  rw [Converter.convert, List.getD_eq_getElem?_getD, List.getElem?_map,
    List.getElem?_range hi]
  rfl

section Plain

variable {a b : Depth} {n : Nat} {row : List UInt8}

theorem storesOf_plain (h : Plain a b) :
    Converter.storesOf ⟨a, b, n * a.step, n * b.step⟩ row
      = (List.range n).flatMap fun x => (pixelStores a b row (a.step * x)).map .of := by
  have hplaces := positions_eq (step_pos a) n
    (Nat.le_mul_of_pos_right n (step_pos a))
    (show n * a.step = 0 + a.step * n by rw [Nat.zero_add, Nat.mul_comm])
  rw [Converter.storesOf, if_neg h.ne, if_neg h.fromBytes, if_neg h.toBytes, hplaces,
    List.flatMap_map, List.map_flatMap]
  simp only [Nat.zero_add]

theorem getD_plain (h : Plain a b) {mem : Nat → UInt8} {x j : Nat} (hx : x < n) (hj : j < b.step) :
    (Converter.convert ⟨a, b, n * a.step, n * b.step⟩ row mem).getD (b.step * x + j) 0
      = (pixelBytes a b row (a.step * x)).getD j 0 := by
  have hlt : b.step * x + j < n * b.step := by
    have hmul := Nat.mul_le_mul_left b.step (Nat.succ_le_of_lt hx)
    rw [Nat.mul_succ, Nat.mul_comm _ n] at hmul
    lia
  rw [getD_convert hlt, storesOf_plain h]
  exact run_blocks (fun x => fills_pixel h row (a.step * x)) hx hj

theorem reach_plain (h : Plain a b) :
    reach (Converter.storesOf ⟨a, b, n * a.step, n * b.step⟩ row) 0 ≤ n * b.step := by
  rw [storesOf_plain h]
  cases n with
  | zero => exact Nat.zero_le _
  | succ n =>
    rw [reach_blocks (fun x => fills_pixel h row (a.step * x)), Nat.mul_comm]
    exact Nat.le_refl _

end Plain

/-! ## From bilevel rows -/

section Bilevel

variable {b : Depth} {n : Nat} {row : List UInt8}

/-- Bit `x` of a row, as the loop looks at it. -/
def bitAt (row : List UInt8) (x : Nat) : Bool :=
  decide (bilevelMasks.getD (x % 8) 0 &&& row.getD (x / 8) 0 ≠ 0)

theorem bit_eq_bitAt {x : Nat} (hx : x / 8 < row.length) : bit row x = some (bitAt row x) := by
  have hmask : ∀ r < 8, (bilevelMasks.getD r 0).toNat = 2 ^ (7 - r) := by decide
  have hget : row.getD (x / 8) 0 = row[x / 8] := by
    rw [List.getD_eq_getElem?_getD, List.getElem?_eq_getElem hx]
    rfl
  have hset := and_mask_ne_zero (b := row[x / 8]) (hmask _ (Nat.mod_lt x (show 0 < 8 by decide)))
  rw [bit_eq_testBit hx, bitAt, hget, UInt8.and_comm,
    ← Bool.decide_coe (row[x / 8].toNat.testBit (7 - x % 8))]
  exact congrArg some (decide_eq_decide.mpr hset.symm)

theorem flatMap_bytes {α : Type} (f : Nat → UInt8 → List α) (k : Nat) :
    (List.range k).flatMap (fun q => bilevelMasks.flatMap (f q))
      = (List.range (8 * k)).flatMap fun x => f (x / 8) (bilevelMasks.getD (x % 8) 0) := by
  induction k with
  | zero => rfl
  | succ k ih =>
    have hlast : (List.range 8).flatMap (fun r => f ((8 * k + r) / 8)
        (bilevelMasks.getD ((8 * k + r) % 8) 0)) = bilevelMasks.flatMap (f k) := by
      simp [List.range_succ, bilevelMasks, Nat.mul_add_div, Nat.add_mod]
    rw [List.range_succ, List.flatMap_append, ih, List.flatMap_singleton, Nat.mul_succ,
      List.range_add, List.flatMap_append, List.flatMap_map, hlast]

theorem storesOf_bilevel (hb : b ≠ .bilevel) :
    Converter.storesOf ⟨.bilevel, b, bytesFor n, n * b.step⟩ row
      = (List.range (8 * bytesFor n)).flatMap fun x =>
        bilevelPixel b (row.getD (x / 8) 0) (bilevelMasks.getD (x % 8) 0) := by
  have hplaces := positions_eq Nat.one_pos (bytesFor n) (Nat.le_refl _)
    (show bytesFor n = 0 + 1 * bytesFor n by omega)
  simp only [Nat.zero_add, Nat.one_mul, List.map_id'] at hplaces
  rw [Converter.storesOf, if_neg (Ne.symm hb), if_pos rfl]
  show ((positions 1 (bytesFor n) (bytesFor n) 0).flatMap _) = _
  rw [hplaces]
  exact flatMap_bytes (fun q => bilevelPixel b (row.getD q 0)) (bytesFor n)

theorem getD_bilevel (hb : b ≠ .bilevel) {mem : Nat → UInt8} {x j : Nat} (hx : x < n)
    (hj : j < b.step) :
    (Converter.convert ⟨.bilevel, b, bytesFor n, n * b.step⟩ row mem).getD (b.step * x + j) 0
      = bitByte (bitAt row x) := by
  have hlt : b.step * x + j < n * b.step := by
    have hmul := Nat.mul_le_mul_left b.step (Nat.succ_le_of_lt hx)
    rw [Nat.mul_succ, Nat.mul_comm _ n] at hmul
    lia
  have hcount := (bytesFor_bounds n).1
  rw [getD_convert hlt, storesOf_bilevel hb]
  exact run_blocks (fun x => fills_bit hb _ _) (Nat.lt_of_lt_of_le hx hcount) hj

theorem reach_bilevel (hb : b ≠ .bilevel) (hn : 0 < n) :
    reach (Converter.storesOf ⟨.bilevel, b, bytesFor n, n * b.step⟩ row) 0
      = b.step * (8 * bytesFor n) + spill b := by
  obtain ⟨c, hc⟩ := Nat.exists_eq_succ_of_ne_zero
    (show 8 * bytesFor n ≠ 0 by have := (bytesFor_bounds n).1; omega)
  rw [storesOf_bilevel hb, hc]
  exact reach_blocks (fun x => fills_bit hb _ _) c

end Bilevel

/-! ## To bilevel rows -/

section Threshold

def byteOf (cur : List Bool) : UInt8 :=
  UInt8.ofNat (ofBits (cur ++ List.replicate (8 - cur.length) false))

theorem byteBits_byteOf {cur : List Bool} (h : cur.length ≤ 8) :
    byteBits (byteOf cur) = cur ++ List.replicate (8 - cur.length) false := by
  have hlen : (cur ++ List.replicate (8 - cur.length) false).length = 8 := by
    rw [List.length_append, List.length_replicate]
    lia
  have hround := natBits_ofBits (cur ++ List.replicate (8 - cur.length) false)
  rwa [hlen, ← byteBits_ofNat] at hround

theorem byteOf_append : ∀ k < 8, ∀ m < 2 ^ k, ∀ c : Bool,
    (if c then byteOf (natBits k m) ||| bilevelMasks.getD k 0 else byteOf (natBits k m))
      = byteOf (natBits k m ++ [c]) := by
  decide +kernel

theorem masks_next : ∀ k < 8,
    bilevelMasks.getD k 0 >>> 1 = if k = 7 then 0 else bilevelMasks.getD (k + 1) 0 := by
  decide

theorem masks_ne_zero : ∀ k < 7, bilevelMasks.getD (k + 1) 0 ≠ 0 := by decide

theorem masks_eq_first : ∀ k < 8, bilevelMasks.getD k 0 = 0x80 ↔ k = 0 := by decide

/-- The bits so far: those of the bytes stored and those that are gathered. -/
def Gathering (l : List Bool) (s : Gathered) : Prop :=
  ∃ cur : List Bool, cur.length < 8 ∧ l = bitsOf s.stored ++ cur ∧
    s.bMask = bilevelMasks.getD cur.length 0 ∧ s.bBilevel = byteOf cur

theorem outputThresholdedBit_gathering {l : List Bool} {s : Gathered} (h : Gathering l s)
    (gray : Nat) : Gathering (l ++ [decide (gray < 128)]) (outputThresholdedBit s gray) := by
  obtain ⟨cur, hlen, hl, hmask, hbyte⟩ := h
  have hm := ofBits_lt cur
  have hbit := byteOf_append cur.length hlen (ofBits cur) hm (decide (gray < 128))
  rw [natBits_ofBits] at hbit
  have hset : (if gray < 128 then s.bBilevel ||| s.bMask else s.bBilevel)
      = byteOf (cur ++ [decide (gray < 128)]) := by
    rw [← hbit, hmask, hbyte]
    simp only [decide_eq_true_eq]
  rw [outputThresholdedBit, hset, hmask, masks_next _ hlen]
  by_cases hfull : cur.length = 7
  · -- The eighth bit: the byte is stored.
    rw [if_pos hfull, if_pos rfl]
    refine ⟨[], by decide, ?_, rfl, rfl⟩
    have hbits : byteBits (byteOf (cur ++ [decide (gray < 128)])) = _ :=
      byteBits_byteOf (by rw [List.length_append, hfull, List.length_singleton])
    rw [hl, bitsOf_append, bitsOf_cons, hbits]
    simp [hfull]
  · rw [if_neg hfull, if_neg (masks_ne_zero _ (by lia))]
    refine ⟨cur ++ [decide (gray < 128)], ?_, ?_, ?_, rfl⟩
    · rw [List.length_append, List.length_singleton]
      lia
    · rw [hl, List.append_assoc]
    · rw [List.length_append, List.length_singleton]

/-- **The bits of a thresholded row**: one for each pixel, white where the last byte is not full. -/
theorem thresholded_bits (grays : List Nat) : ∃ k, k < 8 ∧
    bitsOf (thresholded grays)
      = grays.map (fun gray => decide (gray < 128)) ++ List.replicate k false := by
  have hfold : ∀ (grays : List Nat) (l : List Bool) (s : Gathered), Gathering l s →
      Gathering (l ++ grays.map fun gray => decide (gray < 128))
        (grays.foldl outputThresholdedBit s) := by
    intro grays
    induction grays with
    | nil =>
      intro l s h
      rwa [List.map_nil, List.append_nil]
    | cons gray grays ih =>
      intro l s h
      have hnext := ih _ _ (outputThresholdedBit_gathering h gray)
      rwa [List.append_assoc] at hnext
  obtain ⟨cur, hlen, hl, hmask, hbyte⟩ := hfold grays [] ⟨0x80, 0, []⟩
    ⟨[], by decide, rfl, rfl, rfl⟩
  rw [List.nil_append] at hl
  rw [thresholded, hl]
  -- a last byte is stored if it has been begun
  by_cases hempty : cur = []
  · rw [hmask, hempty]
    exact ⟨0, by decide, by rw [List.replicate_zero, List.append_nil, List.append_nil]; rfl⟩
  · refine ⟨8 - cur.length, ?_, ?_⟩
    · have := List.length_pos_iff.mpr hempty
      lia
    · have hmask' : bilevelMasks.getD cur.length 0 ≠ 0x80 := fun h =>
        hempty (List.length_eq_zero_iff.mp ((masks_eq_first _ hlen).mp h))
      rw [hmask, if_pos hmask', bitsOf_append, bitsOf_cons, bitsOf_nil, List.append_nil, hbyte,
        byteBits_byteOf (Nat.le_of_lt hlen), List.append_assoc]

theorem thresholded_length (grays : List Nat) :
    (thresholded grays).length = bytesFor grays.length := by
  obtain ⟨k, hk, hbits⟩ := thresholded_bits grays
  have hlen := congrArg List.length hbits
  rw [bitsOf_length, List.length_append, List.length_map, List.length_replicate] at hlen
  rw [bytesFor]
  lia

variable {b : Depth} {n : Nat} {row : List UInt8}

def grays (b : Depth) (n : Nat) (row : List UInt8) : List Nat :=
  (List.range n).map fun x => grayParam b row (b.step * x)

theorem storesOf_threshold (hb : b ≠ .bilevel) :
    Converter.storesOf ⟨b, .bilevel, n * b.step, bytesFor n⟩ row
      = (thresholded (grays b n row)).map fun v => .of [v] := by
  have hplaces := positions_eq (step_pos b) n
    (Nat.le_mul_of_pos_right n (step_pos b))
    (show n * b.step = 0 + b.step * n by rw [Nat.zero_add, Nat.mul_comm])
  rw [Converter.storesOf, if_neg hb, if_neg hb, if_pos rfl, hplaces, List.map_map, grays]
  simp only [Nat.zero_add]
  rfl

theorem convert_threshold (hb : b ≠ .bilevel) (mem : Nat → UInt8) :
    Converter.convert ⟨b, .bilevel, n * b.step, bytesFor n⟩ row mem
      = thresholded (grays b n row) := by
  have hlen : (thresholded (grays b n row)).length = bytesFor n := by
    rw [thresholded_length, grays, List.length_map, List.length_range]
  have hstores : (thresholded (grays b n row)).map (fun v => Store.of [v])
      = ((thresholded (grays b n row)).map fun v => [v]).map Store.of := by
    rw [List.map_map]
    rfl
  have hflat : ((thresholded (grays b n row)).map fun v => [v]).flatten
      = thresholded (grays b n row) := by
    rw [← List.flatMap_def]
    exact List.flatMap_singleton' _
  rw [Converter.convert, storesOf_threshold hb, hstores]
  refine List.ext_getElem (by rw [List.length_map, List.length_range, hlen]) fun i h₁ h₂ => ?_
  rw [List.getElem_map, List.getElem_range, run_map_of, hflat]
  have hat := put_at (m := mem) (p := 0) h₂
  rwa [Nat.zero_add] at hat

theorem bit_threshold (hb : b ≠ .bilevel) (mem : Nat → UInt8) {x : Nat} (hx : x < n) :
    bit (Converter.convert ⟨b, .bilevel, n * b.step, bytesFor n⟩ row mem) x
      = some (decide (grayParam b row (b.step * x) < 128)) := by
  obtain ⟨k, -, hbits⟩ := thresholded_bits (grays b n row)
  have hlen : x < ((grays b n row).map fun gray => decide (gray < 128)).length := by
    rwa [List.length_map, grays, List.length_map, List.length_range]
  rw [convert_threshold hb, bit, hbits, List.getElem?_append_left hlen, grays, List.map_map,
    List.getElem?_map, List.getElem?_range hx]
  rfl

theorem reach_threshold (hb : b ≠ .bilevel) :
    reach (Converter.storesOf ⟨b, .bilevel, n * b.step, bytesFor n⟩ row) 0 ≤ bytesFor n := by
  have hlen : (thresholded (grays b n row)).length = bytesFor n := by
    rw [thresholded_length, grays, List.length_map, List.length_range]
  rw [storesOf_threshold hb]
  generalize thresholded (grays b n row) = l at hlen
  rw [← hlen]
  have hreach : ∀ (l : List UInt8) (p : Nat),
      reach (l.map fun v => Store.of [v]) p ≤ p + l.length := by
    intro l
    induction l with
    | nil => exact fun p => Nat.zero_le _
    | cons v l ih =>
      intro p
      have hrest := ih (p + 1)
      rw [List.map_cons, reach, List.length_cons]
      show max (p + 1) (reach (l.map fun v => Store.of [v]) (p + 1)) ≤ _
      lia
  have hl := hreach l 0
  rwa [Nat.zero_add] at hl

end Threshold

/-! ## The way back -/

def Represents : Depth → Depth → Prop
  | .bilevel, b => b ≠ .bilevel
  | .gray8, b => b = .gray16 ∨ b = .color24 ∨ b = .color48
  | .gray16, b => b = .color48
  | .color24, b => b = .color48
  | .color48, _ => False

section Back

variable {row out : List UInt8} {p q : Nat}

theorem ntscLuminance_gray (v : Nat) : ntscLuminance v v v = v := by
  simp only [ntscLuminance, Nat.shiftLeft_eq, Nat.shiftRight_eq_div_pow]
  lia

theorem ofNat_byteAt (row : List UInt8) (p : Nat) : UInt8.ofNat (byteAt row p) = row.getD p 0 :=
  UInt8.ofNat_toNat

theorem wordAt_eq (row : List UInt8) (p : Nat) :
    wordAt row p = byteAt row p + 256 * byteAt row (p + 1) := rfl

theorem wordAt_lt (row : List UInt8) (p : Nat) : wordAt row p < 65536 := littleEndian_lt

theorem wordAt_of_word {v : Nat} (hv : v < 65536) (h₀ : out.getD q 0 = (word v).getD 0 0)
    (h₁ : out.getD (q + 1) 0 = (word v).getD 1 0) : wordAt out q = v := by
  have hlow : byteAt out q = v % 256 := by
    rw [byteAt, h₀]
    exact UInt8.toNat_ofNat'
  have hhigh : byteAt out (q + 1) = v / 256 % 256 := by
    rw [byteAt, h₁]
    exact UInt8.toNat_ofNat'
  rw [wordAt_eq, hlow, hhigh]
  lia

theorem high_of_word {r : Nat} (h₀ : out.getD q 0 = (word (byteAt row r <<< 8)).getD 0 0)
    (h₁ : out.getD (q + 1) 0 = (word (byteAt row r <<< 8)).getD 1 0) :
    wordAt out q = byteAt row r * 256 := by
  have hbyte : byteAt row r < 256 := byteAt_lt
  rw [wordAt_of_word (by rw [Nat.shiftLeft_eq]; omega) h₀ h₁, Nat.shiftLeft_eq]

theorem ofNat_high (r : Nat) : UInt8.ofNat ((byteAt row r * 256) >>> 8) = row.getD r 0 := by
  rw [Nat.shiftRight_eq_div_pow, Nat.mul_div_cancel _ (by decide), ofNat_byteAt]

theorem word_wordAt {j : Nat} (hj : j < 2) :
    (word (wordAt row p)).getD j 0 = row.getD (p + j) 0 := by
  have hlow : byteAt row p < 256 := byteAt_lt
  have hhigh : byteAt row (p + 1) < 256 := byteAt_lt
  have hdiv : wordAt row p / 256 = byteAt row (p + 1) := by
    rw [wordAt_eq]
    lia
  have hmod : UInt8.ofNat (wordAt row p) = UInt8.ofNat (byteAt row p) := by
    rw [UInt8.ofNat_eq_iff_mod_eq_toNat, UInt8.toNat_ofNat', wordAt_eq]
    lia
  rcases (by lia : j = 0 ∨ j = 1) with rfl | rfl
  · exact hmod.trans (ofNat_byteAt row p)
  · show UInt8.ofNat (wordAt row p / 256) = _
    rw [hdiv, ofNat_byteAt]

/-- **The way back of a pixel of whole bytes.** -/
theorem pixelBytes_back {a b : Depth} (ha : a ≠ .bilevel) (h : Represents a b)
    (hout : ∀ j < b.step, out.getD (q + j) 0 = (pixelBytes a b row p).getD j 0) {j : Nat}
    (hj : j < a.step) : (pixelBytes b a out q).getD j 0 = row.getD (p + j) 0 := by
  cases a with
  | bilevel => exact absurd rfl ha
  | gray8 =>
    obtain rfl : j = 0 := Nat.lt_one_iff.mp hj
    obtain rfl | rfl | rfl := h
    · have hword := high_of_word (q := q) (hout 0 (by decide)) (hout 1 (by decide))
      show UInt8.ofNat (wordAt out q >>> 8) = _
      rw [hword, ofNat_high, Nat.add_zero]
    · -- the luminance of three equal bytes is the byte
      have hbyte (i : Nat) (hi : i < 3) : byteAt out (q + i) = byteAt row p := by
        have hstored := hout i hi
        have hsame : (pixelBytes .gray8 .color24 row p).getD i 0 = UInt8.ofNat (byteAt row p) := by
          rcases (by lia : i = 0 ∨ i = 1 ∨ i = 2) with rfl | rfl | rfl <;> rfl
        rw [byteAt, hstored, hsame, ofNat_byteAt, byteAt]
      show UInt8.ofNat (ntscLuminance (byteAt out q) (byteAt out (q + 1)) (byteAt out (q + 2))) = _
      rw [show byteAt out q = byteAt row p from hbyte 0 (by decide), hbyte 1 (by decide),
        hbyte 2 (by decide), ntscLuminance_gray, ofNat_byteAt, Nat.add_zero]
    · have h₀ := high_of_word (q := q) (hout 0 (by decide)) (hout 1 (by decide))
      have h₁ := high_of_word (q := q + 2) (hout 2 (by decide)) (hout 3 (by decide))
      have h₂ := high_of_word (q := q + 4) (hout 4 (by decide)) (hout 5 (by decide))
      show UInt8.ofNat (ntscLuminance (wordAt out q) (wordAt out (q + 2)) (wordAt out (q + 4))
        >>> 8) = _
      rw [h₀, h₁, h₂, ntscLuminance_gray, ofNat_high, Nat.add_zero]
  | gray16 =>
    obtain rfl := h
    have h₀ := wordAt_of_word (q := q) (wordAt_lt row p) (hout 0 (by decide)) (hout 1 (by decide))
    have h₁ := wordAt_of_word (q := q + 2) (wordAt_lt row p) (hout 2 (by decide))
      (hout 3 (by decide))
    have h₂ := wordAt_of_word (q := q + 4) (wordAt_lt row p) (hout 4 (by decide))
      (hout 5 (by decide))
    have hback : pixelBytes .color48 .gray16 out q = word (wordAt row p) := by
      show (word (ntscLuminance (wordAt out q) (wordAt out (q + 2)) (wordAt out (q + 4))) ++ []) = _
      rw [h₀, h₁, h₂, ntscLuminance_gray, List.append_nil]
    rw [hback]
    exact word_wordAt hj
  | color24 =>
    obtain rfl := h
    have h₀ := high_of_word (q := q) (hout 0 (by decide)) (hout 1 (by decide))
    have h₁ := high_of_word (q := q + 2) (hout 2 (by decide)) (hout 3 (by decide))
    have h₂ := high_of_word (q := q + 4) (hout 4 (by decide)) (hout 5 (by decide))
    rcases (by have hj' : j < 3 := hj; lia : j = 0 ∨ j = 1 ∨ j = 2) with rfl | rfl | rfl
    · show UInt8.ofNat (wordAt out q >>> 8) = _
      rw [h₀, ofNat_high, Nat.add_zero]
    · show UInt8.ofNat (wordAt out (q + 2) >>> 8) = _
      rw [h₁, ofNat_high]
    · show UInt8.ofNat (wordAt out (q + 4) >>> 8) = _
      rw [h₂, ofNat_high]
  | color48 => exact h.elim

/-- **The way back of a bilevel pixel.** -/
theorem grayParam_back {b : Depth} (hb : b ≠ .bilevel) {c : Bool}
    (hout : ∀ j < b.step, out.getD (q + j) 0 = bitByte c) :
    decide (grayParam b out q < 128) = c := by
  have hbyte (j : Nat) (hj : j < b.step) : byteAt out (q + j) = (bitByte c).toNat := by
    rw [byteAt, hout j hj]
  have hfirst : byteAt out q = (bitByte c).toNat := hbyte 0 (step_pos b)
  cases b with
  | bilevel => exact absurd rfl hb
  | gray8 =>
    rw [grayParam, hfirst]
    cases c <;> rfl
  | gray16 =>
    rw [grayParam, wordAt_eq, hfirst, hbyte 1 (by decide)]
    cases c <;> rfl
  | color24 =>
    rw [grayParam, hfirst, hbyte 1 (by decide), hbyte 2 (by decide)]
    cases c <;> rfl
  | color48 =>
    rw [grayParam, wordAt_eq, wordAt_eq, wordAt_eq, hfirst, hbyte 1 (by decide),
      hbyte 2 (by decide), Nat.add_assoc q 2 1, hbyte 3 (by decide), hbyte 4 (by decide),
      Nat.add_assoc q 4 1, hbyte 5 (by decide)]
    cases c <;> rfl

end Back

/-! ## There and back -/

/-- Changing a row and changing it back gives its pixels, and the stores of a change end within
the twelve spare bytes behind the output row. -/
structure ChangesWell (n : Nat) (a b : Depth) : Prop where
  roundTrip (h : Represents a b) {g g' : Converter} (hg : getActualTraits n a b = .ok g)
    (hg' : getActualTraits n b a = .ok g') (row : List UInt8) (mem mem' : Nat → UInt8)
    (hrow : row.length = g.dwInRowBytes) :
    ∀ x < n, pixel a.bits (g'.convert (g.convert row mem) mem') x = pixel a.bits row x
  within {g : Converter} (hg : getActualTraits n a b = .ok g) (row : List UInt8)
    (hrow : row.length = g.dwInRowBytes) : reach (g.storesOf row) 0 ≤ g.dwOutRowBytes + 12

/-- The widths for which the pixels of the last bilevel byte have room. -/
def WithinSpare (n : Nat) (a b : Depth) : Prop :=
  a = .bilevel → (b = .gray16 → n % 8 ≠ 1) ∧ (b = .color24 → n % 8 = 0 ∨ 5 ≤ n % 8) ∧
    (b = .color48 → n % 8 = 0 ∨ 6 ≤ n % 8)

section Trip

variable {n : Nat} {a b : Depth} {g g' : Converter}

theorem bytesFor_step {a : Depth} (h : a ≠ .bilevel) (n : Nat) :
    bytesFor (n * a.bits) = n * a.step := by
  rw [step_bits h, bytesFor, Nat.mul_left_comm]
  lia

theorem Represents.toBytes (h : Represents a b) : b ≠ .bilevel := by
  rintro rfl
  cases a with
  | bilevel => exact h rfl
  | gray8 => obtain h | h | h := h <;> cases h
  | gray16 => cases h
  | color24 => cases h
  | color48 => exact h

theorem Represents.ne (h : Represents a b) : a ≠ b := by
  rintro rfl
  cases a with
  | bilevel => exact h rfl
  | gray8 => obtain h | h | h := h <;> cases h
  | gray16 => cases h
  | color24 => cases h
  | color48 => exact h

theorem roundTrip (h : Represents a b) (hg : getActualTraits n a b = .ok g)
    (hg' : getActualTraits n b a = .ok g') (row : List UInt8) (mem mem' : Nat → UInt8)
    (hrow : row.length = g.dwInRowBytes) :
    ∀ x < n, pixel a.bits (g'.convert (g.convert row mem) mem') x = pixel a.bits row x := by
  intro x hx
  rw [getActualTraits_eq hg] at hrow ⊢
  rw [getActualTraits_eq hg', bytesFor_step h.toBytes]
  simp only at hrow
  by_cases ha : a = .bilevel
  · subst ha
    simp only [Depth.bits, Nat.mul_one] at hrow ⊢
    rw [pixel_eq_iff]
    intro j hj
    obtain rfl : j = 0 := Nat.lt_one_iff.mp hj
    have hcount := (bytesFor_bounds n).1
    rw [Nat.one_mul, Nat.add_zero, bit_threshold h.toBytes mem' hx, bit_eq_bitAt (by lia)]
    exact congrArg some (grayParam_back h.toBytes fun j hj => getD_bilevel h.toBytes hx hj)
  · have hplain : Plain a b := ⟨h.ne, ha, h.toBytes⟩
    have hplain' : Plain b a := ⟨h.ne.symm, h.toBytes, ha⟩
    rw [bytesFor_step ha] at hrow ⊢
    -- The rows are equal as a whole, byte by byte.
    refine congrArg (pixel a.bits · x) ?_
    refine List.ext_getElem (by simp [Converter.convert, hrow]) fun i h₁ h₂ => ?_
    have hi : i < n * a.step := hrow ▸ h₂
    have hpos := step_pos a
    have hpixel : i / a.step < n := Nat.div_lt_of_lt_mul (by rwa [Nat.mul_comm])
    have hbyte : i % a.step < a.step := Nat.mod_lt _ hpos
    have hat : (Converter.convert ⟨b, a, n * b.step, n * a.step⟩
        (Converter.convert ⟨a, b, n * a.step, n * b.step⟩ row mem) mem').getD
          (a.step * (i / a.step) + i % a.step) 0 = _ := getD_plain hplain' hpixel hbyte
    rw [pixelBytes_back ha h (fun j hj => getD_plain hplain hpixel hj) hbyte,
      Nat.div_add_mod] at hat
    rwa [List.getD_eq_getElem _ _ h₁, List.getD_eq_getElem _ _ h₂] at hat

theorem reach_from_bilevel (hb : b ≠ .bilevel) (hn : 0 < n) (row : List UInt8) :
    reach (Converter.storesOf ⟨.bilevel, b, bytesFor n, n * b.step⟩ row) 0 ≤ n * b.step + 12 ↔
      WithinSpare n .bilevel b := by
  rw [reach_bilevel hb hn, WithinSpare, forall_prop_of_true rfl, bytesFor]
  cases b with
  | bilevel => exact absurd rfl hb
  | _ =>
    simp only [Depth.step, spill, reduceCtorEq, false_implies, true_and, and_true, forall_const,
      iff_true]
    lia

theorem within_iff (hg : getActualTraits n a b = .ok g) (row : List UInt8)
    (hrow : row.length = g.dwInRowBytes) :
    reach (g.storesOf row) 0 ≤ g.dwOutRowBytes + 12 ↔ WithinSpare n a b := by
  rw [getActualTraits_eq hg] at hrow ⊢
  simp only at hrow ⊢
  by_cases hsame : a = b
  · subst hsame
    refine iff_of_true ?_ ?_
    · rw [Converter.storesOf, if_pos rfl]
      show max (0 + (row.take _).length) 0 ≤ _
      rw [List.length_take]
      lia
    · rintro rfl
      exact ⟨nofun, nofun, nofun⟩
  by_cases hb : b = .bilevel
  · subst hb
    rw [bytesFor_step hsame]
    refine iff_of_true ?_ fun h => absurd h hsame
    have hreach : reach (Converter.storesOf ⟨a, .bilevel, n * a.step, bytesFor n⟩ row) 0
        ≤ bytesFor n := reach_threshold hsame
    simp only [Depth.bits, Nat.mul_one]
    lia
  -- only the expansion of bilevel pixels stores whole groups of them
  by_cases ha : a = .bilevel
  · subst ha
    rw [bytesFor_step hb]
    simp only [Depth.bits, Nat.mul_one]
    rcases Nat.eq_zero_or_pos n with rfl | hn
    · refine iff_of_true ?_ fun _ => ⟨fun _ => by decide, fun _ => .inl rfl, fun _ => .inl rfl⟩
      rw [storesOf_bilevel hb]
      exact Nat.zero_le _
    · exact reach_from_bilevel hb hn row
  · rw [bytesFor_step ha, bytesFor_step hb]
    refine iff_of_true ?_ fun h => absurd h ha
    exact Nat.le_add_right_of_le (reach_plain ⟨hsame, ha, hb⟩)

end Trip

/-- **Changing bits per pixel.** The way there and back gives the row, and the stores stay within
the allowance, exactly for the widths that have room for the last byte of a bilevel row. -/
theorem changes_iff {n : Nat} {a b : Depth} (h : ∃ g, getActualTraits n a b = .ok g) :
    ChangesWell n a b ↔ WithinSpare n a b := by
  obtain ⟨g, hg⟩ := h
  constructor
  · intro hwell
    have hlen : (List.replicate g.dwInRowBytes (0 : UInt8)).length = g.dwInRowBytes :=
      List.length_replicate
    exact (within_iff hg _ hlen).mp (hwell.within hg _ hlen)
  · intro hspare
    constructor
    · intro hrep g₁ g' hg₁ hg' row mem mem' hrow
      exact roundTrip hrep hg₁ hg' row mem mem' hrow
    · intro g₁ hg₁ row hrow
      exact (within_iff hg₁ row hrow).mpr hspare

theorem changes_iff_one_pixel : ChangesWell 1 .bilevel .gray16 ↔ WithinSpare 1 .bilevel .gray16 :=
  changes_iff ⟨⟨.bilevel, .gray16, 1, 2⟩, rfl⟩

/-- A bilevel pixel changed to 48 bits per pixel: eight of them are stored. -/
theorem one_pixel_overruns : ¬ ∀ (n : Nat) (a b : Depth), 1 ≤ n → ChangesWell n a b := by
  intro h
  have hwithin := (h 1 .bilevel .color48 (Nat.le_refl 1)).within
    (g := ⟨.bilevel, .color48, 1, 6⟩) rfl [0] rfl
  revert hwithin
  decide

end Hplip.Ip.ChangeBpp
